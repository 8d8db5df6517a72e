import AbstractHttp.ErrorCode
import Mathlib.Tactic

/-!
# Many requests through one client

`http_client_send_multi` sends them one by one itself, or hands the list to the
transport; `http_raw_send_multi` then sends them one by one as well. What sending one
request gives is a parameter.
-/
namespace AbstractHttp.Transport

variable {α ρ : Type*}

/-- What a call of the transport's `send` returns, 0 for success, and leaves in `*res`. -/
structure SendResult (ρ : Type*) where
  code : ℤ
  response : Option ρ

/-- `struct HttpFuture`, without the state that other transports keep there. -/
structure HttpFuture (ρ : Type*) where
  isReady : Bool
  errorCode : ℤ
  response : Option ρ
  deriving DecidableEq

/-- `http_future_init`. -/
def HttpFuture.init : HttpFuture ρ := ⟨false, 0, none⟩

/-- A future with the result of its request. -/
def SendResult.future (result : SendResult ρ) : HttpFuture ρ := ⟨true, result.code, result.response⟩

/-- `struct HttpMultiRequest`; its `count` is the length of the list. -/
structure HttpMultiRequest (α : Type*) where
  requests : List α
  capacity : ℕ

/-- `http_multi_request_init`. -/
def HttpMultiRequest.init : HttpMultiRequest α := ⟨[], 0⟩

/-- Bytes in a pointer. -/
def pointerSize : ℕ := 8

/-- `http_multi_request_add`; `none` is a NULL request, and `alloc` tells which sizes `realloc`
grants. -/
def multiRequestAdd (alloc : ℕ → Bool) (multi : HttpMultiRequest α) :
    Option α → Except ErrorCode (HttpMultiRequest α)
  | none => .error .inval
  | some req =>
    if multi.requests.length ≥ multi.capacity then
      let newCap := if multi.capacity = 0 then 4 else multi.capacity * 2
      if alloc (newCap * pointerSize) then .ok ⟨multi.requests ++ [req], newCap⟩
      else .error .nomem
    else .ok { multi with requests := multi.requests ++ [req] }

/-- Send the requests from index `i` on and settle their futures; with `failFast`, stop at the
first one that fails. -/
def sendInOrder (send : ℕ → Option α → SendResult ρ) (failFast : Bool) :
    ℕ → List (Option α) → List (HttpFuture ρ) → List (HttpFuture ρ) × ℤ
  | _, [], futures => (futures, 0)
  | i, req :: rest, futures =>
    let result := send i req
    let futures := futures.set i result.future
    if result.code ≠ 0 ∧ failFast then (futures, result.code)
    else sendInOrder send failFast (i + 1) rest futures

/-- `http_raw_send_multi`, which knows no `fail_fast`. -/
def rawSendMulti (send : ℕ → Option α → SendResult ρ) (multi : HttpMultiRequest α)
    (futures : List (HttpFuture ρ)) : List (HttpFuture ρ) × ℤ :=
  sendInOrder send true 0 (multi.requests.map some) futures

/-- `enum ExecutionModality`. -/
inductive ExecutionModality where
  | sync
  | async
  | threadPool
  | multiprocess
  | greenthread
  | messagePassing
  deriving DecidableEq, Repr

/-- `struct HttpClient` as far as `http_client_send_multi` reads it; `send` is given the index of
the call besides the request, since each call has its own result. -/
structure HttpClient (α ρ : Type*) where
  modality : ExecutionModality
  send : Option (ℕ → Option α → SendResult ρ)
  sendMulti : Option (HttpMultiRequest α → List (HttpFuture ρ) → List (HttpFuture ρ) × ℤ)
  loop : Bool

/-- A client of the raw transport, with its loop set. -/
def rawClient (send : ℕ → Option α → SendResult ρ) (modality : ExecutionModality) :
    HttpClient α ρ :=
  ⟨modality, some send, some (rawSendMulti send), true⟩

/-- `client->send`, or what stands in for it. -/
def HttpClient.sendOrNotsup (client : HttpClient α ρ) : ℕ → Option α → SendResult ρ :=
  client.send.getD fun _ _ => ⟨ErrorCode.notsup.value, none⟩

/-- `http_client_send_multi`: the futures afterwards and the code returned. -/
def clientSendMulti (alloc : ℕ → Bool) (client : HttpClient α ρ) (requests : List (Option α))
    (futures : List (HttpFuture ρ)) (failFast : Bool) : List (HttpFuture ρ) × ℤ :=
  if requests.length = 0 then (futures, ErrorCode.inval.value)
  else
    match requests.foldlM (multiRequestAdd alloc) .init with
    | .error e => (futures, e.value)
    | .ok multi =>
      match client.modality with
      | .async =>
        match client.sendMulti with
        | some sendMulti =>
          if client.loop then sendMulti multi futures else (futures, ErrorCode.notsup.value)
        | none => (futures, ErrorCode.notsup.value)
      | _ => sendInOrder client.sendOrNotsup failFast 0 requests futures

/-! The list of requests. -/

theorem multiRequestAdd_granted {alloc : ℕ → Bool} {n : ℕ}
    (halloc : ∀ k ≤ 16 * n + 32, alloc k = true) {multi : HttpMultiRequest α} (req : α)
    (hcap : multi.capacity ≤ 2 * multi.requests.length + 4) (hn : multi.requests.length ≤ n) :
    ∃ cap, multiRequestAdd alloc multi (some req) = .ok ⟨multi.requests ++ [req], cap⟩ ∧
      cap ≤ 2 * (multi.requests.length + 1) + 4 := by
  rw [multiRequestAdd]
  split
  next hfull =>
    have hnewCap : (if multi.capacity = 0 then 4 else multi.capacity * 2) ≤
        2 * multi.requests.length + 4 := by
      split <;> omega
    have hgrant : alloc ((if multi.capacity = 0 then 4 else multi.capacity * 2) * pointerSize) =
        true := by
      apply halloc
      rw [pointerSize]
      omega
    refine ⟨_, if_pos hgrant, ?_⟩
    omega
  next => exact ⟨_, rfl, by omega⟩

theorem multiRequestAdd_all {alloc : ℕ → Bool} {n : ℕ}
    (halloc : ∀ k ≤ 16 * n + 32, alloc k = true) (requests : List α) {multi : HttpMultiRequest α}
    (hcap : multi.capacity ≤ 2 * multi.requests.length + 4)
    (hn : multi.requests.length + requests.length ≤ n) :
    ∃ cap, (requests.map some).foldlM (multiRequestAdd alloc) multi =
      .ok ⟨multi.requests ++ requests, cap⟩ := by
  induction requests generalizing multi with
  | nil => exact ⟨multi.capacity, by simp [pure, Except.pure]⟩
  | cons req requests ih =>
    rw [List.length_cons] at hn
    obtain ⟨cap, hadd, hcap'⟩ := multiRequestAdd_granted halloc req hcap (by omega)
    obtain ⟨cap', hrest⟩ := @ih ⟨multi.requests ++ [req], cap⟩ (by simpa using hcap')
      (by simp only [List.length_append, List.length_singleton]; omega)
    refine ⟨cap', ?_⟩
    rw [List.append_assoc] at hrest
    rw [List.map_cons, List.foldlM_cons, hadd]
    exact hrest

/-! Which futures the loop settles. -/

section InOrder

variable {send : ℕ → Option α → SendResult ρ} {failFast : Bool}

theorem sendInOrder_below (requests : List (Option α)) (futures : List (HttpFuture ρ)) {i j : ℕ}
    (hj : j < i) : (sendInOrder send failFast i requests futures).1[j]? = futures[j]? := by
  induction requests generalizing i futures with
  | nil => rfl
  | cons req requests ih =>
    have hset : (futures.set i (send i req).future)[j]? = futures[j]? :=
      List.getElem?_set_ne (by omega)
    rw [sendInOrder]
    split
    · exact hset
    · rw [ih _ (by omega), hset]

/-- A request is sent, and its future settled, unless an earlier failure stopped the loop. -/
theorem sendInOrder_settles {requests : List (Option α)} {futures : List (HttpFuture ρ)}
    {i k : ℕ} {req : Option α} (hfutures : i + requests.length ≤ futures.length)
    (hreq : requests[k]? = some req)
    (hearlier : failFast = true → ∀ j < k, ∀ q, requests[j]? = some q → (send (i + j) q).code = 0) :
    (sendInOrder send failFast i requests futures).1[i + k]? = some (send (i + k) req).future := by
  induction requests generalizing i k futures with
  | nil => cases hreq
  | cons first requests ih =>
    rw [List.length_cons] at hfutures
    rw [sendInOrder]
    cases k with
    | zero =>
      obtain rfl := Option.some.inj hreq
      have hset : (futures.set i (send i first).future)[i]? = some (send i first).future :=
        List.getElem?_set_self (by omega)
      split
      · exact hset
      · simp only [Nat.add_zero]
        rw [sendInOrder_below _ _ (Nat.lt_add_one i), hset]
    | succ k =>
      have hgoes : ¬ ((send i first).code ≠ 0 ∧ failFast = true) := fun hstop =>
        hstop.1 (hearlier hstop.2 0 (Nat.succ_pos k) first rfl)
      have hshift : ∀ j, i + (j + 1) = i + 1 + j := fun j => by omega
      have hroom : i + 1 + requests.length ≤ (futures.set i (send i first).future).length := by
        rw [List.length_set]
        omega
      rw [if_neg hgoes, hshift k]
      refine ih hroom hreq fun hfast j hj q hq => ?_
      rw [← hshift j]
      exact hearlier hfast (j + 1) (Nat.succ_lt_succ hj) q hq

/-- Behind a failure that stopped the loop, nothing changes. -/
theorem sendInOrder_stops {requests : List (Option α)} (futures : List (HttpFuture ρ))
    {i j k : ℕ} {q : Option α} (hq : requests[j]? = some q) (hfailed : (send (i + j) q).code ≠ 0)
    (hk : j < k) : (sendInOrder send true i requests futures).1[i + k]? = futures[i + k]? := by
  induction requests generalizing i j k futures with
  | nil => cases hq
  | cons first requests ih =>
    have hset : (futures.set i (send i first).future)[i + k]? = futures[i + k]? :=
      List.getElem?_set_ne (by omega)
    rw [sendInOrder]
    split
    next => exact hset
    next hgoes =>
      cases j with
      | zero =>
        obtain rfl := Option.some.inj hq
        exact absurd ⟨hfailed, rfl⟩ hgoes
      | succ j =>
        obtain ⟨k, rfl⟩ := Nat.exists_eq_add_one.mpr (Nat.zero_lt_of_lt hk)
        have hshift : ∀ j, i + (j + 1) = i + 1 + j := fun j => by omega
        rw [hshift j] at hfailed
        rw [hshift k] at hset ⊢
        rw [ih _ hq hfailed (Nat.lt_of_succ_lt_succ hk), hset]

end InOrder

/-! The two modalities. -/

section Modalities

variable {alloc : ℕ → Bool} {send : ℕ → Option α → SendResult ρ} {requests : List α}

/-- With `fail_fast` 0, every future is settled with the result of its own request. -/
def SettlesAll (alloc : ℕ → Bool) (send : ℕ → Option α → SendResult ρ) (requests : List α)
    (modality : ExecutionModality) (futures : List (HttpFuture ρ)) : Prop :=
  ∀ i req, requests[i]? = some req →
    (clientSendMulti alloc (rawClient send modality) (requests.map some) futures false).1[i]? =
      some (send i (some req)).future

theorem clientSendMulti_eq (halloc : ∀ k ≤ 16 * requests.length + 32, alloc k = true)
    (hne : requests ≠ []) {modality : ExecutionModality}
    (hmodality : modality = .sync ∨ modality = .async) (futures : List (HttpFuture ρ))
    (failFast : Bool) :
    clientSendMulti alloc (rawClient send modality) (requests.map some) futures failFast =
      sendInOrder send (failFast || modality = .async) 0 (requests.map some) futures := by
  have hempty : (HttpMultiRequest.init : HttpMultiRequest α).requests.length + requests.length ≤
      requests.length := (Nat.zero_add _).le
  obtain ⟨cap, hadded⟩ := multiRequestAdd_all halloc requests (Nat.zero_le _) hempty
  rw [clientSendMulti, if_neg (by simpa using hne), hadded]
  rcases hmodality with rfl | rfl
  · simp [rawClient, HttpClient.sendOrNotsup]
  · simp [rawClient, rawSendMulti, HttpMultiRequest.init]

theorem ne_nil_of_getElem? {i : ℕ} {req : α} (hreq : requests[i]? = some req) : requests ≠ [] := by
  rintro rfl
  cases hreq

/-- One by one in the client, every request is sent. -/
theorem settlesAll_sync (halloc : ∀ k ≤ 16 * requests.length + 32, alloc k = true)
    {futures : List (HttpFuture ρ)} (hfutures : futures.length = requests.length) :
    SettlesAll alloc send requests .sync futures := by
  intro i req hreq
  have hmapped : (requests.map some)[i]? = some (some req) := by simp [hreq]
  have hsettled : (sendInOrder send false 0 (requests.map some) futures).1[0 + i]? =
      some (send (0 + i) (some req)).future :=
    sendInOrder_settles (by simp [hfutures]) hmapped fun hfast => absurd hfast Bool.false_ne_true
  rw [clientSendMulti_eq halloc (ne_nil_of_getElem? hreq) (Or.inl rfl)]
  simpa using hsettled

/-- One by one in the transport, the first failure ends the sending. -/
theorem settlesAll_async_iff (halloc : ∀ k ≤ 16 * requests.length + 32, alloc k = true) :
    (∀ futures : List (HttpFuture ρ), futures.length = requests.length →
        SettlesAll alloc send requests .async futures) ↔
      ∀ i req, requests[i]? = some req → i + 1 < requests.length →
        (send i (some req)).code = 0 := by
  constructor
  · intro hall i req hreq hi
    by_contra hfailed
    -- The future behind the failure is still as `http_future_init` left it.
    have hnext : requests[i + 1]? = some requests[i + 1] := List.getElem?_eq_getElem hi
    have hmapped : (requests.map some)[i]? = some (some req) := by simp [hreq]
    have hstopped : (sendInOrder send true 0 (requests.map some)
        (List.replicate requests.length HttpFuture.init)).1[0 + (i + 1)]? =
          (List.replicate requests.length HttpFuture.init)[0 + (i + 1)]? :=
      sendInOrder_stops _ hmapped (by simpa using hfailed) (Nat.lt_succ_self i)
    have hsettled := hall (List.replicate requests.length .init)
      List.length_replicate (i + 1) _ hnext
    rw [clientSendMulti_eq halloc (ne_nil_of_getElem? hreq) (Or.inr rfl)] at hsettled
    simp only [Nat.zero_add, List.getElem?_replicate, hi, if_true] at hstopped
    rw [Bool.false_or, decide_eq_true rfl, hstopped, Option.some.injEq] at hsettled
    exact Bool.false_ne_true (congrArg HttpFuture.isReady hsettled)
  · intro hsuccess futures hfutures i req hreq
    have hmapped : (requests.map some)[i]? = some (some req) := by simp [hreq]
    have hi : i < requests.length := (List.getElem?_eq_some_iff.mp hreq).1
    have hearlier : ∀ j < i, ∀ q, (requests.map some)[j]? = some q → (send (0 + j) q).code = 0 := by
      intro j hj q hq
      rw [List.getElem?_map, Option.map_eq_some_iff] at hq
      obtain ⟨earlier, hget, rfl⟩ := hq
      rw [Nat.zero_add]
      exact hsuccess j earlier hget (by omega)
    have hsettled : (sendInOrder send true 0 (requests.map some) futures).1[0 + i]? =
        some (send (0 + i) (some req)).future :=
      sendInOrder_settles (by simp [hfutures]) hmapped fun _ => hearlier
    rw [clientSendMulti_eq halloc (ne_nil_of_getElem? hreq) (Or.inr rfl)]
    simpa using hsettled

/-- In both modalities every future gets its request's result exactly when no request fails, except
perhaps the last. -/
theorem sendMulti_settles_iff (halloc : ∀ k ≤ 16 * requests.length + 32, alloc k = true) :
    (∀ modality, modality = .sync ∨ modality = .async →
      ∀ futures : List (HttpFuture ρ), futures.length = requests.length →
        SettlesAll alloc send requests modality futures) ↔
      ∀ i req, requests[i]? = some req → i + 1 < requests.length →
        (send i (some req)).code = 0 := by
  rw [← settlesAll_async_iff halloc]
  constructor
  · exact fun hboth => hboth .async (Or.inr rfl)
  · rintro hasync modality (rfl | rfl) futures hfutures
    · exact settlesAll_sync halloc hfutures
    · exact hasync futures hfutures

end Modalities

/-- Results of which the second one is a failure. -/
def secondFails : ℕ → Option Unit → SendResult Unit := fun i _ =>
  if i = 1 then ⟨ErrorCode.io.value, none⟩ else ⟨0, some ()⟩

theorem sendMulti_settles_iff_example :
    SettlesAll (fun _ => true) secondFails [(), ()] .async [.init, .init] := by
  refine (sendMulti_settles_iff fun _ _ => rfl).mpr ?_ .async (Or.inr rfl) _ rfl
  intro i req _ hi
  obtain rfl : i = 0 := Nat.lt_one_iff.mp (Nat.lt_of_succ_lt_succ hi)
  rfl

/-- Of three requests, the last one is not sent in the asynchronous modality. -/
theorem secondFails_unsettled :
    ¬ ∀ modality, modality = .sync ∨ modality = .async →
      ∀ futures : List (HttpFuture Unit), futures.length = 3 →
        SettlesAll (fun _ => true) secondFails [(), (), ()] modality futures := by
  intro hall
  have hthird := hall .async (Or.inr rfl) [.init, .init, .init] rfl 2 () rfl
  revert hthird
  decide

end AbstractHttp.Transport
