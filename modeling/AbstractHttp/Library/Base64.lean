import Mathlib.Tactic

/-!
# Base64 with padding

Groups of three octets are written as four digits of six bits each.  A last
group of one or two octets is filled up with zero bits, and the digits that
carry none of its bits are replaced by the padding character.
-/
namespace AbstractHttp.Library.Base64

/-- The character of a six-bit digit. -/
def digit (n : ℕ) : UInt8 :=
  if n < 26 then UInt8.ofNat (0x41 + n)
  else if n < 52 then UInt8.ofNat (0x61 + (n - 26))
  else if n < 62 then UInt8.ofNat (0x30 + (n - 52))
  else if n = 62 then 0x2B
  else 0x2F

/-- The character `=` that stands for a missing digit. -/
def pad : UInt8 := 0x3D

/-- The four digits of a number of 24 bits, the highest first. -/
def digits (n : ℕ) : List UInt8 :=
  [digit (n / 2 ^ 18), digit (n / 2 ^ 12 % 64), digit (n / 2 ^ 6 % 64), digit (n % 64)]

/-- The number of 24 bits that three octets make up. -/
def group (a b c : UInt8) : ℕ := a.toNat * 2 ^ 16 + b.toNat * 2 ^ 8 + c.toNat

/-- The padded text of an octet string. -/
def encode : List UInt8 → List UInt8
  | [] => []
  | [a] => (digits (group a 0 0)).take 2 ++ [pad, pad]
  | [a, b] => (digits (group a b 0)).take 3 ++ [pad]
  | a :: b :: c :: rest => digits (group a b c) ++ encode rest

/-- The digits of an octet string whose last group is filled up, none of them replaced. -/
def filled : List UInt8 → List UInt8
  | [] => []
  | [a] => digits (group a 0 0)
  | [a, b] => digits (group a b 0)
  | a :: b :: c :: rest => digits (group a b c) ++ filled rest

/-- How many padding characters follow the digits of `n` octets. -/
def padding (n : ℕ) : ℕ := (3 - n % 3) % 3

@[simp] theorem digits_length (n : ℕ) : (digits n).length = 4 := rfl

theorem encode_length (xs : List UInt8) : (encode xs).length = 4 * ((xs.length + 2) / 3) := by
  induction xs using encode.induct with
  | case1 => simp [encode]
  | case2 a => simp [encode]
  | case3 a b => simp [encode]
  | case4 a b c rest ih =>
    rw [encode, List.length_append, digits_length, ih]
    simp only [List.length_cons]
    omega

theorem filled_length (xs : List UInt8) : (filled xs).length = 4 * ((xs.length + 2) / 3) := by
  induction xs using filled.induct with
  | case1 => simp [filled]
  | case2 a => simp [filled]
  | case3 a b => simp [filled]
  | case4 a b c rest ih =>
    rw [filled, List.length_append, digits_length, ih]
    simp only [List.length_cons]
    omega

theorem padding_le (n : ℕ) : padding n ≤ 4 * ((n + 2) / 3) := by
  rw [padding]
  omega

/-- The text is the filled digits with the padding put over the last of them. -/
theorem encode_eq_filled (xs : List UInt8) :
    encode xs = (filled xs).take (4 * ((xs.length + 2) / 3) - padding xs.length) ++
      List.replicate (padding xs.length) pad := by
  induction xs using encode.induct with
  | case1 => simp [encode, filled, padding]
  | case2 a => simp [encode, filled, padding, digits, List.replicate]
  | case3 a b => simp [encode, filled, padding, digits]
  | case4 a b c rest ih =>
    have hpad : padding (rest.length + 1 + 1 + 1) = padding rest.length := by
      rw [padding, padding]
      omega
    have hle := padding_le rest.length
    have hcut : 4 * ((rest.length + 1 + 1 + 1 + 2) / 3) - padding rest.length =
        (digits (group a b c)).length +
          (4 * ((rest.length + 2) / 3) - padding rest.length) := by
      rw [digits_length]
      omega
    rw [encode, filled, ih]
    simp only [List.length_cons, hpad, hcut, List.take_length_add_append, List.append_assoc]

theorem group_lt (a b c : UInt8) : group a b c < 2 ^ 24 := by
  have ha := a.toNat_lt
  have hb := b.toNat_lt
  have hc := c.toNat_lt
  rw [group]
  omega

/-- Every digit of a group is below 64, so it has a character of its own. -/
theorem group_div_lt (a b c : UInt8) : group a b c / 2 ^ 18 < 64 := by
  have h := group_lt a b c
  omega

theorem digit_ne_pad {n : ℕ} (h : n < 64) : digit n ≠ pad := by
  have hall : ∀ i : Fin 64, digit i ≠ pad := by decide
  exact hall ⟨n, h⟩

/-- A text consists of digits and padding. -/
theorem mem_encode {x : UInt8} {xs : List UInt8} (h : x ∈ encode xs) :
    (∃ n < 64, x = digit n) ∨ x = pad := by
  have hmod (n : ℕ) : n % 64 < 64 := Nat.mod_lt _ (by omega)
  have hgroup {a b c : UInt8} (hx : x ∈ digits (group a b c)) : ∃ n < 64, x = digit n := by
    simp only [digits, List.mem_cons, List.not_mem_nil, or_false] at hx
    rcases hx with rfl | rfl | rfl | rfl
    · exact ⟨_, group_div_lt a b c, rfl⟩
    · exact ⟨_, hmod _, rfl⟩
    · exact ⟨_, hmod _, rfl⟩
    · exact ⟨_, hmod _, rfl⟩
  induction xs using encode.induct with
  | case1 => simp [encode] at h
  | case2 a =>
    rcases List.mem_append.mp h with hx | hx
    · exact Or.inl (hgroup (List.mem_of_mem_take hx))
    · exact Or.inr (by simpa using hx)
  | case3 a b =>
    rcases List.mem_append.mp h with hx | hx
    · exact Or.inl (hgroup (List.mem_of_mem_take hx))
    · exact Or.inr (by simpa using hx)
  | case4 a b c rest ih =>
    rcases List.mem_append.mp h with hx | hx
    · exact Or.inl (hgroup hx)
    · exact ih hx

/-- A text holds no NUL, so a reader of strings sees all of it. -/
theorem zero_not_mem_encode (xs : List UInt8) : 0 ∉ encode xs := by
  intro h
  rcases mem_encode h with ⟨n, hn, hdigit⟩ | hpad
  · have hall : ∀ i : Fin 64, (0 : UInt8) ≠ digit i := by decide
    exact hall ⟨n, hn⟩ hdigit
  · exact absurd hpad (by decide)

/-- The digits of a group give its three octets back. -/
theorem octets_of_digits (a b c : UInt8) :
    (group a b c / 2 ^ 18) * 2 ^ 18 + (group a b c / 2 ^ 12 % 64) * 2 ^ 12 +
      (group a b c / 2 ^ 6 % 64) * 2 ^ 6 + group a b c % 64 = group a b c := by
  omega

theorem group_octets (a b c : UInt8) :
    group a b c / 2 ^ 16 = a.toNat ∧ group a b c / 2 ^ 8 % 256 = b.toNat ∧
      group a b c % 256 = c.toNat := by
  have hb := b.toNat_lt
  have hc := c.toNat_lt
  rw [group]
  omega

section Decoding

/-- The number of a digit, for a character that is one. -/
def value (c : UInt8) : Option ℕ := (List.range 64).find? fun n => digit n = c

/-- The number of 24 bits that four digits make up, the first the highest. -/
def number (w x y z : UInt8) : Option ℕ := do
  let p ← value w
  let q ← value x
  let r ← value y
  let s ← value z
  return p * 2 ^ 18 + q * 2 ^ 12 + r * 2 ^ 6 + s

/-- The three octets of a number of 24 bits. -/
def octets (n : ℕ) : List UInt8 :=
  [UInt8.ofNat (n / 2 ^ 16), UInt8.ofNat (n / 2 ^ 8 % 256), UInt8.ofNat (n % 256)]

/-- The octets of the last group: a missing digit counts as zero, and the octets that have bits
of it are left out. -/
def decodeLast (w x y z : UInt8) : Option (List UInt8) :=
  if z ≠ pad then (number w x y z).map octets
  else if y ≠ pad then (number w x y (digit 0)).map fun n => (octets n).take 2
  else (number w x (digit 0) (digit 0)).map fun n => (octets n).take 1

/-- The octet string that a text stands for. -/
def decode : List UInt8 → Option (List UInt8)
  | [] => some []
  | [w, x, y, z] => decodeLast w x y z
  | w :: x :: y :: z :: rest =>
    (number w x y z).bind fun n => (decode rest).map (octets n ++ ·)
  | _ => none

/-- Whole groups of digits, of which padding may replace the last one or the last two. -/
structure IsText (xs : List UInt8) : Prop where
  length : xs.length % 4 = 0
  padding : ∀ i, xs[i]? = some pad → xs.length ≤ i + 2
  followed : ∀ i, xs[i]? = some pad → i + 2 = xs.length → xs[i + 1]? = some pad
  digits : ∀ x ∈ xs, x ≠ pad → ∃ n < 64, digit n = x

theorem value_eq_some_iff {c : UInt8} {n : ℕ} : value c = some n ↔ n < 64 ∧ digit n = c := by
  have hinj : ∀ i j : Fin 64, digit i = digit j → i = j := by decide
  have hfind {m : ℕ} (h : value c = some m) : m < 64 ∧ digit m = c := by
    have hmem := List.mem_of_find?_eq_some h
    have hdigit := List.find?_some h
    exact ⟨List.mem_range.mp hmem, by simpa using hdigit⟩
  refine ⟨hfind, fun ⟨hlt, hdigit⟩ => ?_⟩
  cases hvalue : value c with
  | none =>
    have hnone := List.find?_eq_none.mp hvalue n (List.mem_range.mpr hlt)
    simp [hdigit] at hnone
  | some m =>
    obtain ⟨hm, hsame⟩ := hfind hvalue
    have heq := hinj ⟨m, hm⟩ ⟨n, hlt⟩ (hsame.trans hdigit.symm)
    rw [Fin.mk.inj heq]

theorem value_isSome_iff {c : UInt8} : (value c).isSome ↔ ∃ n < 64, digit n = c := by
  simp only [Option.isSome_iff_exists, value_eq_some_iff]

theorem value_pad : value pad = none := by decide

theorem number_eq_some_iff {w x y z : UInt8} {n : ℕ} : number w x y z = some n ↔
    ∃ p q r s, value w = some p ∧ value x = some q ∧ value y = some r ∧ value z = some s ∧
      p * 2 ^ 18 + q * 2 ^ 12 + r * 2 ^ 6 + s = n := by
  simp only [number, Option.bind_eq_bind, Option.bind_eq_some_iff, Option.pure_def,
    Option.some.injEq]
  constructor
  · rintro ⟨p, hp, q, hq, r, hr, s, hs, rfl⟩
    exact ⟨p, q, r, s, hp, hq, hr, hs, rfl⟩
  · rintro ⟨p, q, r, s, hp, hq, hr, hs, rfl⟩
    exact ⟨p, hp, q, hq, r, hr, s, hs, rfl⟩

theorem number_isSome_iff {w x y z : UInt8} : (number w x y z).isSome ↔
    (value w).isSome ∧ (value x).isSome ∧ (value y).isSome ∧ (value z).isSome := by
  simp only [Option.isSome_iff_exists, number_eq_some_iff]
  constructor
  · rintro ⟨_, p, q, r, s, hp, hq, hr, hs, -⟩
    exact ⟨⟨p, hp⟩, ⟨q, hq⟩, ⟨r, hr⟩, s, hs⟩
  · rintro ⟨⟨p, hp⟩, ⟨q, hq⟩, ⟨r, hr⟩, s, hs⟩
    exact ⟨_, p, q, r, s, hp, hq, hr, hs, rfl⟩

theorem number_lt {w x y z : UInt8} {n : ℕ} (h : number w x y z = some n) : n < 2 ^ 24 := by
  obtain ⟨p, q, r, s, hp, hq, hr, hs, rfl⟩ := number_eq_some_iff.mp h
  have hp := (value_eq_some_iff.mp hp).1
  have hq := (value_eq_some_iff.mp hq).1
  have hr := (value_eq_some_iff.mp hr).1
  have hs := (value_eq_some_iff.mp hs).1
  omega

/-- The octets of a number make it up again. -/
theorem group_octets_of_lt {n : ℕ} (h : n < 2 ^ 24) :
    group (UInt8.ofNat (n / 2 ^ 16)) (UInt8.ofNat (n / 2 ^ 8 % 256)) (UInt8.ofNat (n % 256)) =
      n := by
  simp only [group, UInt8.toNat_ofNat']
  omega

theorem ne_pad_of_digit {c : UInt8} (hc : ∃ n < 64, digit n = c) : c ≠ pad := by
  obtain ⟨n, hn, rfl⟩ := hc
  exact digit_ne_pad hn

/-- The text goes on behind a group that is not the last one, which has no padding. -/
theorem IsText.behind_group {w x y z : UInt8} {rest : List UInt8}
    (htext : IsText (w :: x :: y :: z :: rest)) (h : rest ≠ []) :
    (number w x y z).isSome ∧ IsText rest := by
  have hpos : 0 < rest.length := List.length_pos_of_ne_nil h
  have hlen := htext.length
  have hpads := htext.padding
  simp only [List.length_cons] at hlen hpads
  have hgroup (i : ℕ) (hi : i < 4) : (w :: x :: y :: z :: rest)[i]? ≠ some pad := by
    intro hpad
    have hle := hpads i hpad
    omega
  rw [number_isSome_iff]
  simp only [value_isSome_iff]
  refine ⟨⟨htext.digits w (by simp) ?_, htext.digits x (by simp) ?_,
    htext.digits y (by simp) ?_, htext.digits z (by simp) ?_⟩, by omega, ?_, ?_, ?_⟩
  · simpa using hgroup 0 (by omega)
  · simpa using hgroup 1 (by omega)
  · simpa using hgroup 2 (by omega)
  · simpa using hgroup 3 (by omega)
  · intro i hi
    have hle := hpads (i + 4) hi
    omega
  · intro i hi hend
    exact htext.followed (i + 4) hi (by simp only [List.length_cons]; omega)
  · intro c hc
    exact htext.digits c (by simp [hc])

/-- A group without padding may stand before any text. -/
theorem IsText.group {w x y z : UInt8} {rest : List UInt8} (hrest : IsText rest)
    (hgroup : (number w x y z).isSome) : IsText (w :: x :: y :: z :: rest) := by
  rw [number_isSome_iff] at hgroup
  simp only [value_isSome_iff] at hgroup
  obtain ⟨hw, hx, hy, hz⟩ := hgroup
  have hlen := hrest.length
  have hlater {i : ℕ} (hi : (w :: x :: y :: z :: rest)[i]? = some pad) :
      ∃ k, i = k + 4 ∧ rest[k]? = some pad := by
    match i, hi with
    | 0, hi => exact absurd (Option.some.inj hi) (ne_pad_of_digit hw)
    | 1, hi => exact absurd (Option.some.inj hi) (ne_pad_of_digit hx)
    | 2, hi => exact absurd (Option.some.inj hi) (ne_pad_of_digit hy)
    | 3, hi => exact absurd (Option.some.inj hi) (ne_pad_of_digit hz)
    | k + 4, hi => exact ⟨k, rfl, hi⟩
  refine ⟨by simp only [List.length_cons]; omega, ?_, ?_, ?_⟩
  · intro i hi
    obtain ⟨k, rfl, hk⟩ := hlater hi
    have hle := hrest.padding k hk
    simp only [List.length_cons]
    omega
  · intro i hi hend
    obtain ⟨k, rfl, hk⟩ := hlater hi
    simp only [List.length_cons] at hend
    exact hrest.followed k hk (by omega)
  · intro c hc hpad
    simp only [List.mem_cons] at hc
    rcases hc with rfl | rfl | rfl | rfl | hc
    · exact hw
    · exact hx
    · exact hy
    · exact hz
    · exact hrest.digits c hc hpad

theorem isText_group_iff {w x y z : UInt8} {rest : List UInt8} (h : rest ≠ []) :
    IsText (w :: x :: y :: z :: rest) ↔ (number w x y z).isSome ∧ IsText rest :=
  ⟨fun htext => htext.behind_group h, fun hrest => hrest.2.group hrest.1⟩

theorem isText_last_iff {w x y z : UInt8} : IsText [w, x, y, z] ↔
    (value w).isSome ∧ (value x).isSome ∧ ((value y).isSome ∨ y = pad ∧ z = pad) ∧
      ((value z).isSome ∨ z = pad) := by
  simp only [value_isSome_iff]
  constructor
  · intro htext
    have hpads := htext.padding
    simp only [List.length_cons, List.length_nil] at hpads
    refine ⟨htext.digits w (by simp) ?_, htext.digits x (by simp) ?_, ?_, ?_⟩
    · rintro rfl
      exact absurd (hpads 0 rfl) (by omega)
    · rintro rfl
      exact absurd (hpads 1 rfl) (by omega)
    · by_cases hy : y = pad
      · have hz := htext.followed 2 (by simp [hy]) rfl
        exact Or.inr ⟨hy, by simpa using hz⟩
      · exact Or.inl (htext.digits y (by simp) hy)
    · by_cases hz : z = pad
      · exact Or.inr hz
      · exact Or.inl (htext.digits z (by simp) hz)
  · rintro ⟨hw, hx, hy, hz⟩
    refine ⟨by simp, ?_, ?_, ?_⟩
    · intro i hi
      match i, hi with
      | 0, hi => exact absurd (Option.some.inj hi) (ne_pad_of_digit hw)
      | 1, hi => exact absurd (Option.some.inj hi) (ne_pad_of_digit hx)
      | k + 2, _ =>
        simp only [List.length_cons, List.length_nil]
        omega
    · intro i hi hend
      obtain rfl : i = 2 := by simpa using hend
      have hypad : y = pad := by simpa using hi
      rcases hy with hdigit | ⟨-, hzpad⟩
      · exact absurd hypad (ne_pad_of_digit hdigit)
      · simp [hzpad]
    · intro c hc hpad
      simp only [List.mem_cons, List.not_mem_nil, or_false] at hc
      rcases hc with rfl | rfl | rfl | rfl
      · exact hw
      · exact hx
      · exact hy.resolve_right fun h => hpad h.1
      · exact hz.resolve_right hpad

theorem decodeLast_isSome_iff {w x y z : UInt8} :
    (decodeLast w x y z).isSome ↔ IsText [w, x, y, z] := by
  have hzero : (value (digit 0)).isSome := by decide
  have hpad : (value pad).isSome = false := by decide
  rw [isText_last_iff, decodeLast]
  by_cases hz : z = pad
  · by_cases hy : y = pad
    · simp [hz, hy, number_isSome_iff, hzero, hpad]
    · simp [hz, hy, number_isSome_iff, hzero, hpad]
  · simp [hz, number_isSome_iff]

theorem decode_group {w x y z : UInt8} {rest : List UInt8} (h : rest ≠ []) :
    decode (w :: x :: y :: z :: rest) =
      (number w x y z).bind fun n => (decode rest).map (octets n ++ ·) := by
  rw [decode]
  exact h

/-- One to three characters stand for nothing. -/
theorem decode_short {xs : List UInt8} (hnil : xs ≠ [])
    (h : ∀ w x y z rest, xs ≠ w :: x :: y :: z :: rest) : decode xs = none := by
  rw [decode.eq_def]
  split
  · exact (hnil rfl).elim
  · exact (h _ _ _ _ _ rfl).elim
  · exact (h _ _ _ _ _ rfl).elim
  · rfl

/-- The texts are the strings that stand for octets. -/
theorem decode_isSome_iff {xs : List UInt8} : (decode xs).isSome ↔ IsText xs := by
  induction xs using decode.induct with
  | case1 => exact ⟨fun _ => ⟨rfl, by simp, by simp, by simp⟩, fun _ => rfl⟩
  | case2 w x y z => exact decodeLast_isSome_iff
  | case3 w x y z rest hrest ih =>
    rw [isText_group_iff hrest, ← ih, decode_group hrest]
    cases number w x y z with
    | none => simp
    | some n => simp
  | case4 xs hnil hlast hgroup =>
    have hshort : xs.length % 4 ≠ 0 := by
      match xs, hnil, hgroup with
      | [_], _, _ => simp
      | [_, _], _, _ => simp
      | [_, _, _], _, _ => simp
      | w :: x :: y :: z :: rest, _, hgroup => exact (hgroup w x y z rest rfl).elim
    simp only [decode_short hnil hgroup, Option.isSome_none, Bool.false_eq_true, false_iff]
    exact fun htext => hshort htext.length

theorem number_digits {n : ℕ} (h : n < 2 ^ 24) :
    number (digit (n / 2 ^ 18)) (digit (n / 2 ^ 12 % 64)) (digit (n / 2 ^ 6 % 64))
      (digit (n % 64)) = some n := by
  refine number_eq_some_iff.mpr ⟨n / 2 ^ 18, n / 2 ^ 12 % 64, n / 2 ^ 6 % 64, n % 64,
    value_eq_some_iff.mpr ⟨by omega, rfl⟩, value_eq_some_iff.mpr ⟨by omega, rfl⟩,
    value_eq_some_iff.mpr ⟨by omega, rfl⟩, value_eq_some_iff.mpr ⟨by omega, rfl⟩, by omega⟩

theorem octets_group (a b c : UInt8) : octets (group a b c) = [a, b, c] := by
  obtain ⟨ha, hb, hc⟩ := group_octets a b c
  rw [octets, ha, hb, hc]
  simp only [UInt8.ofNat_toNat]

/-- The text of an octet string stands for it. -/
theorem decode_encode (xs : List UInt8) : decode (encode xs) = some xs := by
  induction xs using encode.induct with
  | case1 => rfl
  | case2 a =>
    have hnumber := number_digits (group_lt a 0 0)
    have hlow : group a 0 0 / 2 ^ 6 % 64 = 0 ∧ group a 0 0 % 64 = 0 := by
      simp only [group, UInt8.toNat_zero]
      omega
    rw [hlow.1, hlow.2] at hnumber
    change decodeLast _ _ pad pad = _
    rw [decodeLast, if_neg (not_not.mpr rfl), if_neg (not_not.mpr rfl), hnumber, Option.map_some,
      octets_group]
    rfl
  | case3 a b =>
    have hnumber := number_digits (group_lt a b 0)
    have hlow : group a b 0 % 64 = 0 := by
      simp only [group, UInt8.toNat_zero]
      omega
    have hne : digit (group a b 0 / 2 ^ 6 % 64) ≠ pad := digit_ne_pad (Nat.mod_lt _ (by decide))
    rw [hlow] at hnumber
    change decodeLast _ _ _ pad = _
    rw [decodeLast, if_neg (not_not.mpr rfl), if_pos hne, hnumber, Option.map_some, octets_group]
    rfl
  | case4 a b c rest ih =>
    have hnumber := number_digits (group_lt a b c)
    by_cases hrest : encode rest = []
    · have hnil : rest = [] := by
        have hlength := encode_length rest
        rw [hrest] at hlength
        exact List.eq_nil_of_length_eq_zero (by simp at hlength; omega)
      have hne : digit (group a b c % 64) ≠ pad := digit_ne_pad (Nat.mod_lt _ (by decide))
      subst hnil
      change decodeLast _ _ _ _ = _
      rw [decodeLast, if_pos hne, hnumber, Option.map_some, octets_group]
    · rw [encode, digits, List.cons_append, List.cons_append, List.cons_append, List.cons_append,
        List.nil_append, decode_group hrest, hnumber, Option.bind_some, ih, Option.map_some,
        octets_group]
      rfl

end Decoding

end AbstractHttp.Library.Base64
