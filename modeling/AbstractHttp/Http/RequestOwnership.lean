import AbstractHttp.Http.RequestBlocks

/-!
# Who owns the blocks of a request

Each function hands back a request that owns what it owned before and what was added, and loses no
block where memory runs out half way.
-/
namespace AbstractHttp.Http.Owned
open Library EventStream

/-- The block of a string, none for NULL. -/
def stringBlock (s : Option HeapString) : Multiset ℕ := pointed (s.map HeapString.block)

def HeaderSlot.blocks (slot : HeaderSlot) : Multiset ℕ :=
  stringBlock slot.key + stringBlock slot.value

/-- An entry of a header list has both strings. -/
def HeaderSlot.Full (slot : HeaderSlot) : Prop := slot.key.isSome ∧ slot.value.isSome

/-- What a header list owns. -/
def headersOwned (headers : HeaderBlocks) : Multiset ℕ := headers.blocks HeaderSlot.blocks

/-- The strings of a header list. -/
def headerStrings (headers : HeaderBlocks) : Multiset ℕ := headers.entryBlocks HeaderSlot.blocks

@[simp] theorem stringBlock_none : stringBlock none = 0 := rfl

/-- The string of an argument is on the heap of the owner or of somebody else, if at all. -/
def Argument.Live (s : Argument) (m : Multiset ℕ) (others : Set ℕ) : Prop :=
  ∀ b ∈ s.origin, b ∈ m ∨ b ∈ others

/-- The strings of a part, without those of its headers. -/
def PartSlot.strings (slot : PartSlot) : Multiset ℕ :=
  stringBlock slot.name + stringBlock slot.filename + stringBlock slot.contentType

def PartSlot.blocks (slot : PartSlot) : Multiset ℕ := slot.strings + headersOwned slot.headers

/-- A part has a name. -/
def PartSlot.Full (slot : PartSlot) : Prop :=
  slot.name.isSome ∧ slot.headers.Sound HeaderSlot.Full

/-- What a list of parts owns. -/
def partsOwned (parts : PartBlocks) : Multiset ℕ := parts.blocks PartSlot.blocks

/-- The strings of the parts and of their headers. -/
def partStrings (parts : PartBlocks) : Multiset ℕ :=
  parts.entryBlocks fun slot => slot.strings + headerStrings slot.headers

/-- What a request owns. -/
def RequestBlocks.owned (req : RequestBlocks) : Multiset ℕ :=
  stringBlock req.url + pointed (req.body.map HeapBytes.block) + headersOwned req.headers +
    partsOwned req.parts

/-- The strings of a request, as an argument may lead to them. -/
def RequestBlocks.strings (req : RequestBlocks) : Multiset ℕ :=
  stringBlock req.url + pointed (req.body.map HeapBytes.block) + headerStrings req.headers +
    partStrings req.parts

structure RequestBlocks.Sound (req : RequestBlocks) : Prop where
  headers : req.headers.Sound HeaderSlot.Full
  parts : req.parts.Sound PartSlot.Full

theorem headerStrings_le (headers : HeaderBlocks) :
    headerStrings headers ≤ headersOwned headers := BlockArray.entryBlocks_le

theorem partStrings_le (parts : PartBlocks) :
    partStrings parts ≤ parts.entryBlocks PartSlot.blocks :=
  Finset.sum_le_sum fun i _ => add_le_add_right (headerStrings_le (parts.slots i).headers) _

section Strings

variable {others : Set ℕ} {m l : Multiset ℕ} {s : Argument}

theorem Argument.static_live (text : CString) : (Argument.static text).Live m others :=
  fun _ h => absurd h (by simp [Argument.static])

theorem Argument.Live.mono (h : s.Live m others) (hm : m ≤ l) : s.Live l others :=
  fun b hb => (h b hb).imp_left (Multiset.mem_of_le hm)

theorem HeapString.read_transfers {s : HeapString} (h : s.block ∈ m ∨ s.block ∈ others) :
    Transfers others m s.read (fun _ => m) fun r => r = s.text :=
  .bind (.use h) fun _ _ => .ret rfl rfl

theorem Argument.read_transfers (h : s.Live m others) :
    Transfers others m s.read (fun _ => m) fun r => r = s.text := by
  obtain ⟨origin, text⟩ := s
  cases origin with
  | none => exact .ret rfl rfl
  | some b => exact HeapString.read_transfers (h b rfl)

theorem strdup_transfers (h : s.Live m others) :
    Transfers others m (strdup s) (fun r => stringBlock r + m) fun _ => True := by
  refine .bind (Argument.read_transfers h) fun _ _ => .bind .malloc ?_
  rintro (_ | b) -
  · exact .ret rfl trivial
  · exact .ret rfl trivial

theorem freeString_transfers {s : Option HeapString} :
    Transfers others (stringBlock s + m) (freeString s) (fun _ => m) fun _ => True := .free

theorem readString_transfers {s : Option HeapString} (hsome : s.isSome)
    (h : stringBlock s ≤ m) :
    Transfers others m (readString s) (fun _ => m) fun _ => True := by
  obtain ⟨s, rfl⟩ := Option.isSome_iff_exists.mp hsome
  refine (HeapString.read_transfers (.inl ?_)).conseq rfl fun _ _ => ⟨rfl, trivial⟩
  exact Multiset.mem_of_le h (Multiset.mem_singleton_self s.block)

end Strings

section Copies

variable {α β : Type} {others : Set ℕ} {m : Multiset ℕ} {arr : BlockArray β} {good : β → Prop}
  {own : β → Multiset ℕ} {s : Argument} {store : Option HeapString → β → β}
  {k : Option HeapString → BlockArray β → HeapM α} {owned : α → Multiset ℕ} {Q : α → Prop}

/-- A copy that is put into the slot behind the entries in use is not yet owned by the array. -/
theorem copyBehind_transfers (hsound : arr.Sound good) (hroom : arr.count < arr.capacity)
    (hlive : s.Live (m + arr.blocks own) others)
    (hk : ∀ copy arr', arr'.Sound good → arr'.count < arr'.capacity → arr'.count = arr.count →
      arr'.slots arr'.count = store copy (arr.slots arr.count) →
      arr'.entryBlocks own = arr.entryBlocks own →
      Transfers others (stringBlock copy + (m + arr'.blocks own)) (k copy arr') owned Q) :
    Transfers others (m + arr.blocks own) (do
      let copy ← strdup s
      let arr ← arr.modify arr.count (store copy)
      k copy arr) owned Q := by
  refine .bind (strdup_transfers hlive) ?_
  rintro copy -
  refine .bind (BlockArray.modify_transfers hsound hroom ?_) ?_
  · intro b hb
    simp [BlockArray.mem_blocks hb]
  · rintro _ rfl
    have hblocks : (arr.withSlot arr.count (store copy (arr.slots arr.count))).blocks own = _ :=
      BlockArray.blocks_withSlot_behind (le_refl arr.count)
    rw [← hblocks]
    exact hk copy _ (hsound.withSlot_behind le_rfl) hroom rfl BlockArray.withSlot_self
      (BlockArray.entryBlocks_withSlot_behind le_rfl)

end Copies

section Headers

variable {others : Set ℕ} {headers : HeaderBlocks} {key value : Option Argument}

theorem headersAdd_transfers (hsound : headers.Sound HeaderSlot.Full)
    (hkey : ∀ s ∈ key, s.Live (headerStrings headers) others)
    (hvalue : ∀ s ∈ value, s.Live (headerStrings headers) others) :
    Transfers others (headersOwned headers) (headersAdd headers key value)
      (fun r => headersOwned r.1) fun r => r.1.Sound HeaderSlot.Full := by
  cases key with
  | none => exact .ret rfl hsound
  | some key =>
    cases value with
    | none => exact .ret rfl hsound
    | some value =>
      refine .bind (BlockArray.grow_transfers hsound (by decide)) ?_
      rintro (_ | grown) hgrown
      · exact .ret rfl hsound
      · obtain ⟨hgrown, hroom, hcount, hslots⟩ := hgrown grown rfl
        have hstrings : headerStrings headers = headerStrings grown := by
          rw [headerStrings, headerStrings, BlockArray.entryBlocks, BlockArray.entryBlocks, hcount,
            hslots]
        have hlive (m : Multiset ℕ) (arr : HeaderBlocks) (s : Argument)
            (h : s.Live (headerStrings grown) others)
            (heq : arr.entryBlocks HeaderSlot.blocks = grown.entryBlocks HeaderSlot.blocks) :
            s.Live (m + arr.blocks HeaderSlot.blocks) others :=
          h.mono ((le_of_eq heq.symm).trans
            (BlockArray.entryBlocks_le.trans (Multiset.le_add_left _ _)))
        rw [hstrings] at hkey hvalue
        refine (copyBehind_transfers (m := 0) hgrown hroom (hlive _ _ _ (hkey key rfl) rfl)
          ?_).of_eq (zero_add _).symm
        intro copy keyed hkeyed hroom _ hslot hentries
        cases copy with
        | none => exact .ret (by simp only [stringBlock_none, headersOwned, zero_add]) hkeyed
        | some key' =>
          rw [if_neg (by simp)]
          refine (copyBehind_transfers (m := stringBlock (some key')) hkeyed hroom
            (hlive _ _ _ (hvalue value rfl) hentries) ?_).of_eq (by rw [zero_add])
          intro copy valued hvalued hroom _ hslot' _
          rw [hslot] at hslot'
          cases copy with
          | none =>
            refine .bind (BlockArray.get_transfers hvalued hroom ?_) ?_
            · exact fun b hb => .inl (by simp [BlockArray.mem_blocks hb])
            · rintro _ rfl
              rw [hslot']
              refine .bind ((freeString_transfers (m := valued.blocks HeaderSlot.blocks)).of_eq
                ?_) fun _ _ => .ret rfl hvalued
              rw [stringBlock_none, zero_add]
          | some value' =>
            rw [if_neg (by simp)]
            refine .ret ?_ (hvalued.counted hroom ?_)
            · rw [headersOwned, BlockArray.blocks_counted, hslot', HeaderSlot.blocks]
              abel
            · rw [hslot']
              exact ⟨rfl, rfl⟩

/-- An entry that is taken out takes its strings along, whatever is moved after it. -/
theorem removeLoop_transfers {key : Argument} (hkey : key.Live 0 others)
    (hsound : headers.Sound HeaderSlot.Full) (i : ℕ) (found : Bool) :
    Transfers others (headersOwned headers) (removeLoop key headers i found)
      (fun r => headersOwned r.1) fun r => r.1.Sound HeaderSlot.Full := by
  generalize hn : headers.count - i = n
  induction n generalizing headers i found with
  | zero =>
    rw [removeLoop, if_neg (by omega)]
    exact .ret rfl hsound
  | succ n ih =>
    have hi : i < headers.count := by omega
    have hfull := hsound.entries i hi
    have hslot : (headers.slots i).blocks ≤ headersOwned headers := by
      rw [headersOwned, BlockArray.blocks_entry hi]
      exact Multiset.le_add_right _ _
    rw [removeLoop, if_pos hi]
    refine .bind (BlockArray.get_transfers hsound (hi.trans_le hsound.within)
      fun b hb => .inl (BlockArray.mem_blocks hb)) ?_
    rintro _ rfl
    refine .bind (readString_transfers hfull.1
      ((Multiset.le_add_right _ _).trans hslot)) fun entry _ => ?_
    refine .bind (Argument.read_transfers (hkey.mono (Multiset.zero_le _))) ?_
    rintro _ rfl
    split_ifs
    · have hsplit : headersOwned headers = stringBlock (headers.slots i).key +
          (stringBlock (headers.slots i).value + headersOwned (headers.without i)) := by
        rw [headersOwned, BlockArray.blocks_without hi, HeaderSlot.blocks, add_assoc]
        rfl
      rw [hsplit]
      refine .bind freeString_transfers fun _ _ => .bind freeString_transfers fun _ _ => ?_
      refine .bind (BlockArray.moveUp_transfers hsound
        (by have hwithin := hsound.within; omega) ?_) ?_
      · exact fun b hb => .inl (BlockArray.mem_blocks (show b ∈ (headers.without i).block from hb))
      · rintro _ rfl
        exact ih (hsound.without hi) i true (by
          change headers.count - 1 - i = n
          omega)
    · exact ih hsound (i + 1) found (by omega)

theorem headersRemove_transfers {key : Option Argument} (hkey : ∀ s ∈ key, s.Live 0 others)
    (hsound : headers.Sound HeaderSlot.Full) :
    Transfers others (headersOwned headers) (headersRemove headers key)
      (fun r => headersOwned r.1) fun r => r.1.Sound HeaderSlot.Full := by
  cases key with
  | none => exact .ret rfl hsound
  | some key =>
    exact .bind (removeLoop_transfers (hkey key rfl) hsound 0 false) fun r hr => .ret rfl hr

theorem freeHeader_transfers (slot : HeaderSlot) :
    Transfers others slot.blocks (freeHeader slot) (fun _ => 0) fun _ => True :=
  .bind freeString_transfers fun _ _ =>
    (freeString_transfers (m := 0)).of_eq (add_zero _).symm

theorem headersFree_transfers (hsound : headers.Sound HeaderSlot.Full) :
    Transfers others (headersOwned headers) (headersFree headers) (fun _ => 0)
      fun r => r = .init headers.slots :=
  BlockArray.clear_transfers hsound fun slot _ _ => freeHeader_transfers slot

end Headers
section Parts

variable {others : Set ℕ} {parts : PartBlocks} {slot : PartSlot} {junk : Memory HeaderSlot}

/-- The headers of a new slot own nothing, so that freeing them frees nothing. -/
theorem abandonPart_transfers (hsound : parts.Sound PartSlot.Full)
    (hroom : parts.count < parts.capacity)
    (hempty : (parts.slots parts.count).headers = .init junk) :
    Transfers others (partsOwned parts) (abandonPart parts) (fun r => partsOwned r.1)
      fun r => r.1.Sound PartSlot.Full := by
  have hblock : ∀ b ∈ parts.block, b ∈ partsOwned parts ∨ b ∈ others :=
    fun b hb => .inl (BlockArray.mem_blocks hb)
  refine .bind (BlockArray.get_transfers hsound hroom hblock) ?_
  rintro _ rfl
  rw [hempty]
  refine .bind ((headersFree_transfers (BlockArray.sound_init junk)).frame.conseq (zero_add _).symm
    fun _ h => ⟨(zero_add _).symm, h⟩) ?_
  rintro headers -
  refine .bind (BlockArray.put_transfers hsound hroom hblock) ?_
  rintro _ rfl
  exact .ret (BlockArray.blocks_withSlot_behind le_rfl) (hsound.withSlot_behind le_rfl)

theorem copyInto_transfers {s : Option Argument} {store : Option HeapString → PartSlot → PartSlot}
    {undo : PartSlot → HeapM Unit} {next : PartBlocks → HeapM (PartBlocks × Option ErrorCode)}
    (hsound : parts.Sound PartSlot.Full) (hroom : parts.count < parts.capacity)
    (hslot : parts.slots parts.count = slot) (hempty : slot.headers = .init junk)
    (hlive : ∀ s' ∈ s, s'.Live (parts.entryBlocks PartSlot.blocks) others)
    (hstore : ∀ copy, (store copy slot).headers = slot.headers ∧
      (store copy slot).strings = stringBlock copy + slot.strings)
    (hundo : ∀ others, Transfers others slot.strings (undo (store none slot)) (fun _ => 0)
      fun _ => True)
    (hnext : ∀ (parts' : PartBlocks) slot', parts'.Sound PartSlot.Full →
      parts'.count < parts'.capacity → parts'.slots parts'.count = slot' →
      parts'.entryBlocks PartSlot.blocks = parts.entryBlocks PartSlot.blocks →
      (s = none ∧ slot' = slot ∨ ∃ c, slot' = store (some c) slot) →
      Transfers others (slot'.strings + partsOwned parts') (next parts')
        (fun r => partsOwned r.1) fun r => r.1.Sound PartSlot.Full) :
    Transfers others (slot.strings + partsOwned parts) (copyInto parts s store undo next)
      (fun r => partsOwned r.1) fun r => r.1.Sound PartSlot.Full := by
  cases s with
  | none => exact hnext parts slot hsound hroom hslot rfl (.inl ⟨rfl, rfl⟩)
  | some s =>
    refine copyBehind_transfers hsound hroom ((hlive s rfl).mono
      (BlockArray.entryBlocks_le.trans (Multiset.le_add_left _ _))) ?_
    intro copy parts' hsound' hroom' _ hslot' hentries
    rw [hslot] at hslot'
    cases copy with
    | none =>
      have hblock : ∀ b ∈ parts'.block, b ∈ slot.strings + partsOwned parts' ∨ b ∈ others :=
        fun b hb => .inl (Multiset.mem_add.mpr (.inr (BlockArray.mem_blocks hb)))
      refine (Transfers.bind (BlockArray.get_transfers hsound' hroom' hblock) ?_).of_eq
        (zero_add _)
      rintro _ rfl
      rw [hslot']
      refine .bind (hundo _).frame fun _ _ => ?_
      rw [zero_add]
      have hinit : (parts'.slots parts'.count).headers = .init junk := by
        rw [hslot', (hstore none).1, hempty]
      exact abandonPart_transfers hsound' hroom' hinit
    | some c =>
      refine (hnext parts' _ hsound' hroom' hslot' hentries (.inr ⟨c, rfl⟩)).of_eq ?_
      rw [(hstore (some c)).2, add_assoc]
      rfl

theorem addPart_transfers {name filename contentType : Option Argument}
    {data : Option (List UInt8)} {dataLen : ℕ} {held : ∀ block ∈ data, dataLen ≤ block.length}
    (hsound : parts.Sound PartSlot.Full)
    (hname : ∀ s ∈ name, s.Live (parts.entryBlocks PartSlot.blocks) others)
    (hfilename : ∀ s ∈ filename, s.Live (parts.entryBlocks PartSlot.blocks) others)
    (hcontentType : ∀ s ∈ contentType, s.Live (parts.entryBlocks PartSlot.blocks) others) :
    Transfers others (partsOwned parts) (addPart parts name filename contentType data dataLen held)
      (fun r => partsOwned r.1) fun r => r.1.Sound PartSlot.Full := by
  rw [addPart]
  split_ifs with hnull
  · exact .ret rfl hsound
  refine .bind (BlockArray.grow_transfers hsound (by decide)) ?_
  rintro (_ | grown) hgrown
  · exact .ret rfl hsound
  obtain ⟨hgrown, hroom, hcount, hslots⟩ := hgrown grown rfl
  have hentries : parts.entryBlocks PartSlot.blocks = grown.entryBlocks PartSlot.blocks := by
    rw [BlockArray.entryBlocks, BlockArray.entryBlocks, hcount, hslots]
  rw [hentries] at hname hfilename hcontentType
  refine .bind (BlockArray.modify_transfers hgrown hroom
    fun b hb => .inl (BlockArray.mem_blocks hb)) ?_
  rintro _ rfl
  have hzeroed := hgrown.withSlot_behind (x := (grown.slots grown.count).zeroed) le_rfl
  have howned : partsOwned grown = PartSlot.strings (grown.slots grown.count).zeroed +
      partsOwned (grown.withSlot grown.count (grown.slots grown.count).zeroed) :=
    (BlockArray.blocks_withSlot_behind le_rfl).symm.trans (zero_add _).symm
  have hkept : (grown.withSlot grown.count (grown.slots grown.count).zeroed).entryBlocks
      PartSlot.blocks = _ := BlockArray.entryBlocks_withSlot_behind (le_refl grown.count)
  refine (copyInto_transfers hzeroed hroom BlockArray.withSlot_self rfl (hkept ▸ hname)
    (fun copy => ⟨rfl, by simp [PartSlot.strings, PartSlot.zeroed]⟩)
    (fun others => .ret (by simp [PartSlot.strings, PartSlot.zeroed]) trivial) ?_).of_eq howned
  intro named slot hnamed hroom hslot hentries hcopied
  obtain ⟨rfl, -⟩ | ⟨name', rfl⟩ := hcopied
  · exact absurd (Or.inl rfl) hnull
  have hlive (s : Option Argument)
      (h : ∀ s' ∈ s, s'.Live (grown.entryBlocks PartSlot.blocks) others) {arr : PartBlocks}
      (hsame : arr.entryBlocks PartSlot.blocks = named.entryBlocks PartSlot.blocks) :
      ∀ s' ∈ s, s'.Live (arr.entryBlocks PartSlot.blocks) others := by
    rwa [hsame, hentries, hkept]
  refine copyInto_transfers hnamed hroom hslot rfl (hlive _ hfilename rfl)
    (fun copy => ⟨rfl, ?_⟩) (fun others => ?_) ?_
  · simp only [PartSlot.strings, PartSlot.zeroed, stringBlock_none]
    abel
  · exact (freeString_transfers (m := 0)).of_eq (by simp [PartSlot.strings, PartSlot.zeroed])
  intro filed slot hfiled hroom hslot hentries' hcopied
  obtain ⟨hempty, hname', htype⟩ : slot.headers = .init (grown.slots grown.count).headers.slots ∧
      slot.name = some name' ∧ slot.contentType = none := by
    rcases hcopied with ⟨-, rfl⟩ | ⟨c, rfl⟩ <;> exact ⟨rfl, rfl, rfl⟩
  refine copyInto_transfers hfiled hroom hslot hempty (hlive _ hcontentType hentries')
    (fun copy => ⟨rfl, ?_⟩) (fun others => ?_) ?_
  · simp only [PartSlot.strings, htype, stringBlock_none]
    abel
  · have hstrings : slot.strings = stringBlock slot.filename + (stringBlock slot.name + 0) := by
      rw [PartSlot.strings, htype, stringBlock_none]
      abel
    rw [hstrings]
    exact .bind freeString_transfers fun _ _ => freeString_transfers
  intro typed slot' htyped hroom hslot' _ hcopied
  obtain ⟨hempty', hnamed'⟩ : slot'.headers = slot.headers ∧ slot'.name = slot.name := by
    rcases hcopied with ⟨-, rfl⟩ | ⟨c, rfl⟩ <;> exact ⟨rfl, rfl⟩
  refine .bind (BlockArray.modify_transfers htyped hroom ?_) ?_
  · exact fun b hb => .inl (Multiset.mem_add.mpr (.inr (BlockArray.mem_blocks hb)))
  rintro _ rfl
  have hfull : PartSlot.Full slot' := by
    refine ⟨by rw [hnamed', hname']; rfl, ?_⟩
    rw [hempty', hempty]
    exact BlockArray.sound_init _
  have hfree : headersOwned slot'.headers = 0 := by
    rw [hempty', hempty]
    rfl
  rw [hslot']
  refine .ret ?_ ((htyped.withSlot_behind le_rfl).counted hroom ?_)
  · rw [partsOwned, BlockArray.blocks_counted, BlockArray.blocks_withSlot_behind le_rfl]
    change PartSlot.blocks ((typed.withSlot _ _).slots typed.count) + _ = _
    rw [BlockArray.withSlot_self]
    change slot'.strings + headersOwned slot'.headers + _ = _
    rw [hfree, add_zero]
    rfl
  · exact (congrArg PartSlot.Full BlockArray.withSlot_self).mpr hfull

theorem addPartHeaderLast_transfers {key value : Option Argument}
    (hsound : parts.Sound PartSlot.Full) (hkey : ∀ s ∈ key, s.Live (partStrings parts) others)
    (hvalue : ∀ s ∈ value, s.Live (partStrings parts) others) :
    Transfers others (partsOwned parts) (addPartHeaderLast parts key value)
      (fun r => partsOwned r.1) fun r => r.1.Sound PartSlot.Full := by
  rw [addPartHeaderLast]
  split_ifs with hcall
  · exact .ret rfl hsound
  have hlast : parts.count - 1 < parts.count := by
    have hcount : parts.count ≠ 0 := fun h => hcall (.inr (.inr h))
    omega
  have hroom := hlast.trans_le hsound.within
  have hfull := hsound.entries _ hlast
  refine .bind (BlockArray.get_transfers hsound hroom
    fun b hb => .inl (BlockArray.mem_blocks hb)) ?_
  rintro _ rfl
  generalize hslot : parts.slots (parts.count - 1) = slot at hfull
  have hsplit (headers : HeaderBlocks) : slot.strings + headersOwned headers +
      parts.blocksBut PartSlot.blocks (parts.count - 1) = headersOwned headers +
        (slot.strings + parts.blocksBut PartSlot.blocks (parts.count - 1)) := by
    abel
  have hlive {s : Argument} (h : s.Live (partStrings parts) others) :
      s.Live (headerStrings slot.headers) (others ∪
        {b | b ∈ slot.strings + parts.blocksBut PartSlot.blocks (parts.count - 1)}) := by
    intro b hb
    rcases h b hb with hstring | hother
    · obtain ⟨i, hi, hmem⟩ := BlockArray.mem_entryBlocks.mp hstring
      by_cases hlast : i = parts.count - 1
      · rw [hlast, hslot] at hmem
        rcases Multiset.mem_add.mp hmem with hmem | hmem
        · exact .inr (.inr (Multiset.mem_add.mpr (.inl hmem)))
        · exact .inl hmem
      · refine .inr (.inr (Multiset.mem_add.mpr (.inr (BlockArray.mem_blocksBut hi hlast ?_))))
        exact Multiset.mem_of_le (add_le_add_right BlockArray.entryBlocks_le _) hmem
    · exact .inr (.inl hother)
  have howned : partsOwned parts = headersOwned slot.headers +
      (slot.strings + parts.blocksBut PartSlot.blocks (parts.count - 1)) := by
    rw [partsOwned, BlockArray.blocks_entry hlast, hslot, PartSlot.blocks, hsplit]
  rw [howned]
  refine .bind (headersAdd_transfers hfull.2 (fun s hs => hlive (hkey s hs))
    fun s hs => hlive (hvalue s hs)).frame ?_
  rintro ⟨headers, rc⟩ hheaders
  refine .bind (BlockArray.put_transfers hsound hroom ?_) ?_
  · intro b hb
    have hmem : b ∈ parts.blocksBut PartSlot.blocks (parts.count - 1) :=
      BlockArray.block_mem_blocksBut hb
    simp [hmem]
  rintro _ rfl
  refine .ret ?_ (hsound.withSlot ⟨hfull.1, hheaders⟩)
  rw [partsOwned, BlockArray.blocks_withSlot hlast, ← hsplit]
  rfl

theorem freePart_transfers (hfull : slot.Full) :
    Transfers others slot.blocks (freePart slot) (fun _ => 0) fun _ => True := by
  have hblocks : slot.blocks = stringBlock slot.name + (stringBlock slot.filename +
      (stringBlock slot.contentType + headersOwned slot.headers)) := by
    rw [PartSlot.blocks, PartSlot.strings, add_assoc, add_assoc]
  rw [hblocks]
  refine .bind freeString_transfers fun _ _ => .bind freeString_transfers fun _ _ => ?_
  refine .bind freeString_transfers fun _ _ => ?_
  exact .bind (headersFree_transfers hfull.2) fun _ _ => .ret rfl trivial

theorem partsFree_transfers (hsound : parts.Sound PartSlot.Full) :
    Transfers others (partsOwned parts) (partsFree parts) (fun _ => 0)
      fun r => r = .init parts.slots :=
  BlockArray.clear_transfers hsound fun _ hfull _ => freePart_transfers hfull

end Parts
section Request

variable {others : Set ℕ} {req : RequestBlocks} {m : Multiset ℕ}

/-- A string of a request, or of somebody else, seen from its header list. -/
theorem Argument.Live.inHeaders {s : Argument} (h : s.Live (m + req.strings) others) :
    s.Live (headerStrings req.headers) (others ∪
      {b | b ∈ m + (stringBlock req.url + pointed (req.body.map HeapBytes.block) +
        partsOwned req.parts)}) := by
  intro b hb
  have hparts := (partStrings_le req.parts).trans BlockArray.entryBlocks_le
  rcases h b hb with hmem | hother
  · simp only [RequestBlocks.strings, Multiset.mem_add] at hmem
    simp only [Set.mem_union, Set.mem_ofPred_eq, Multiset.mem_add]
    have hmem' : b ∈ partStrings req.parts → b ∈ partsOwned req.parts :=
      fun h => Multiset.mem_of_le hparts h
    tauto
  · exact .inr (.inl hother)

/-- An addition to the header list of a request, by an owner of further blocks. -/
theorem requestHeaders_transfers {key value : Option Argument} (hsound : req.Sound)
    (hkey : ∀ s ∈ key, s.Live (m + req.strings) others)
    (hvalue : ∀ s ∈ value, s.Live (m + req.strings) others) :
    Transfers others (m + req.owned) (headersAdd req.headers key value)
      (fun r => m + { req with headers := r.1 }.owned)
      fun r => RequestBlocks.Sound { req with headers := r.1 } := by
  have hsplit (headers : HeaderBlocks) : m + RequestBlocks.owned { req with headers := headers } =
      headersOwned headers + (m + (stringBlock req.url + pointed (req.body.map HeapBytes.block) +
        partsOwned req.parts)) := by
    simp only [RequestBlocks.owned]
    abel
  exact (headersAdd_transfers hsound.headers (fun s hs => (hkey s hs).inHeaders)
    fun s hs => (hvalue s hs).inHeaders).frame.conseq (hsplit req.headers)
    fun r hr => ⟨hsplit r.1, hr, hsound.parts⟩

theorem RequestBlocks.strings_le (req : RequestBlocks) : req.strings ≤ req.owned :=
  add_le_add (add_le_add_right (headerStrings_le _) _)
    ((partStrings_le _).trans BlockArray.entryBlocks_le)

theorem setAuth_transfers {scheme : String} {token : Option Argument} (hsound : req.Sound)
    (htoken : ∀ s ∈ token, s.Live (m + req.strings) others) :
    Transfers others (m + req.owned) (setAuth scheme req token) (fun r => m + r.1.owned)
      fun r => r.1.Sound := by
  cases token with
  | none => exact .ret rfl hsound
  | some token =>
    refine .bind (Argument.read_transfers ((htoken token rfl).mono
      (add_le_add_right req.strings_le m))) ?_
    rintro _ rfl
    refine .bind .malloc ?_
    rintro (_ | val) -
    · exact .ret (zero_add _).symm hsound
    · refine .bind (.use (.inl (by simp))) fun _ _ => ?_
      rw [pointed_some, ← add_assoc]
      refine .bind (requestHeaders_transfers hsound ?_ ?_) ?_
      · rintro s ⟨⟩
        exact Argument.static_live _
      · rintro s ⟨⟩ b ⟨⟩
        exact .inl (by simp)
      · rintro ⟨headers, rc⟩ hheaders
        rw [add_assoc]
        exact .bind .release fun _ _ => .ret rfl hheaders

theorem setAuthBasicUserpwd_transfers {junk : Memory UInt8} {username password : Option Argument}
    (hsound : req.Sound) (huser : ∀ s ∈ username, s.Live req.strings others)
    (hpass : ∀ s ∈ password, s.Live req.strings others) :
    Transfers others req.owned (setAuthBasicUserpwd junk req username password)
      (fun r => r.1.owned) fun r => r.1.Sound := by
  cases username with
  | none => exact .ret rfl hsound
  | some username =>
    cases password with
    | none => exact .ret rfl hsound
    | some password =>
      refine .bind (Argument.read_transfers ((huser username rfl).mono req.strings_le)) ?_
      rintro _ rfl
      refine .bind (Argument.read_transfers ((hpass password rfl).mono req.strings_le)) ?_
      rintro _ rfl
      refine .bind .malloc ?_
      rintro (_ | raw) -
      · exact .ret (zero_add _).symm hsound
      · refine .bind (.use (.inl (by simp))) fun _ _ => .bind .malloc fun block _ => ?_
        rw [pointed_some, add_left_comm]
        refine .bind .release fun _ _ => ?_
        cases block with
        | none => exact .ret (zero_add _).symm hsound
        | some encoded =>
          obtain ⟨out, hout⟩ : ∃ out, base64Encode (fun _ => (some encoded).isSome) junk
              (username.text.bytes ++ colon :: password.text.bytes) = .ok out := ⟨_, rfl⟩
          rw [hout]
          refine .bind (setAuth_transfers (m := {encoded}) hsound ?_) fun _ hr =>
            .bind .release fun _ _ => .ret rfl hr
          rintro s ⟨⟩ b ⟨⟩
          exact .inl (by simp)

theorem initForm_transfers {url : Option Argument} {fields : List FormField} (hsound : req.Sound)
    (hurl : ∀ s ∈ url, s.Live req.strings others) (hnew : req.url = none ∧ req.body = none) :
    Transfers others req.owned (initForm req url fields) (fun r => r.1.owned)
      fun r => r.1.Sound := by
  cases url with
  | none => exact .ret rfl hsound
  | some url =>
    rw [initForm]
    split_ifs
    · exact .ret rfl hsound
    have hfree (copy : Option HeapString) :
        RequestBlocks.owned { req with url := copy } = stringBlock copy + req.owned := by
      simp only [RequestBlocks.owned, hnew.1, stringBlock_none]
      abel
    refine .bind (strdup_transfers ((hurl url rfl).mono req.strings_le)) ?_
    rintro copy -
    rw [← hfree]
    cases copy with
    | none => exact .ret rfl ⟨hsound.headers, hsound.parts⟩
    | some copy =>
      rw [if_neg (by simp)]
      have hcopied : ({ req with url := some copy } : RequestBlocks).Sound :=
        ⟨hsound.headers, hsound.parts⟩
      refine .bind ((requestHeaders_transfers (m := 0) hcopied ?_ ?_).conseq (zero_add _).symm
          fun _ h => ⟨(zero_add _).symm, h⟩) ?_
      · rintro s ⟨⟩
        exact Argument.static_live _
      · rintro s ⟨⟩
        exact Argument.static_live _
      rintro ⟨headers, rc⟩ hheaders
      dsimp only
      split_ifs
      · exact .ret rfl ⟨hheaders.headers, hheaders.parts⟩
      refine .bind .malloc ?_
      rintro (_ | body) -
      · exact .ret (zero_add _).symm ⟨hheaders.headers, hheaders.parts⟩
      · refine .bind (.use (.inl (by simp))) fun _ _ => .ret ?_ ⟨hheaders.headers, hheaders.parts⟩
        simp only [RequestBlocks.owned, hnew.2, Option.map_none, Option.map_some, pointed_none,
          pointed_some]
        abel

theorem readHeaders_transfers {headers : HeaderBlocks} (hsound : headers.Sound HeaderSlot.Full)
    (hm : headersOwned headers ≤ m) :
    Transfers others m (readHeaders headers) (fun _ => m) fun _ => True := by
  refine .mapM fun i hi => ?_
  have hlt := List.mem_range.mp hi
  have hfull := hsound.entries i hlt
  have hslot : (headers.slots i).blocks ≤ m := by
    refine le_trans ?_ hm
    rw [headersOwned, BlockArray.blocks_entry hlt]
    exact Multiset.le_add_right _ _
  refine .bind (BlockArray.get_transfers hsound (hlt.trans_le hsound.within)
    fun b hb => .inl (Multiset.mem_of_le hm (BlockArray.mem_blocks hb))) ?_
  rintro _ rfl
  refine .bind (readString_transfers hfull.1
    ((Multiset.le_add_right _ _).trans hslot)) fun _ _ => ?_
  exact .bind (readString_transfers hfull.2 ((Multiset.le_add_left _ _).trans hslot))
    fun _ _ => .ret rfl trivial

theorem readOptional_transfers {s : Option HeapString} (hm : stringBlock s ≤ m) :
    Transfers others m (readOptional s) (fun _ => m) fun _ => True := by
  cases s with
  | none => exact .ret rfl trivial
  | some s =>
    have hblock := Multiset.mem_of_le hm (Multiset.mem_singleton_self s.block)
    exact .bind (HeapString.read_transfers (.inl hblock)) fun _ _ => .ret rfl trivial

theorem readParts_transfers {parts : PartBlocks} (hsound : parts.Sound PartSlot.Full)
    (hm : partsOwned parts ≤ m) :
    Transfers others m (readParts parts) (fun _ => m) fun _ => True := by
  refine .mapM fun i hi => ?_
  have hlt := List.mem_range.mp hi
  have hfull := hsound.entries i hlt
  have hslot : (parts.slots i).blocks ≤ m := by
    refine le_trans ?_ hm
    rw [partsOwned, BlockArray.blocks_entry hlt]
    exact Multiset.le_add_right _ _
  have hstrings : (parts.slots i).strings ≤ m := (Multiset.le_add_right _ _).trans hslot
  refine .bind (BlockArray.get_transfers hsound (hlt.trans_le hsound.within)
    fun b hb => .inl (Multiset.mem_of_le hm (BlockArray.mem_blocks hb))) ?_
  rintro _ rfl
  refine .bind (readString_transfers hfull.1 (le_trans ?_ hstrings)) fun _ _ => ?_
  · rw [PartSlot.strings, add_assoc]
    exact Multiset.le_add_right _ _
  refine .bind (readOptional_transfers (le_trans ?_ hstrings)) fun _ _ => ?_
  · exact (Multiset.le_add_left _ _).trans (Multiset.le_add_right _ _)
  refine .bind (readOptional_transfers ((Multiset.le_add_left _ _).trans hstrings)) fun _ _ => ?_
  exact .bind (readHeaders_transfers hfull.2 ((Multiset.le_add_left _ _).trans hslot))
    fun _ _ => .ret rfl trivial

theorem flattenParts_transfers {vsnprintf : Vsnprintf} {fresh : Memory UInt8} {rand : UInt32}
    (hsound : req.Sound) :
    Transfers others req.owned (flattenParts vsnprintf fresh rand req) (fun r => r.1.owned)
      fun r => r.1.Sound := by
  rw [flattenParts]
  split_ifs with hcount hbody
  · exact .ret rfl hsound
  · exact .ret rfl hsound
  have hnone : req.body = none := by simpa using hbody
  have hparts : partsOwned req.parts ≤ req.owned := Multiset.le_add_left _ _
  refine .bind (readParts_transfers hsound.parts hparts) fun texts _ => .bind .malloc ?_
  rintro (_ | buffer) -
  · exact .ret (zero_add _).symm hsound
  refine .bind (.use (.inl (by simp))) fun _ _ => ?_
  refine .bind (readParts_transfers hsound.parts (hparts.trans (Multiset.le_add_left _ _)))
    fun texts' _ => ?_
  split
  · exact .bind .release fun _ _ => .ret rfl hsound
  refine .bind (requestHeaders_transfers (m := {buffer}) hsound ?_ ?_) ?_
  · rintro s ⟨⟩
    exact Argument.static_live _
  · rintro s ⟨⟩
    exact Argument.static_live _
  rintro ⟨headers, rc⟩ hheaders
  dsimp only
  split_ifs
  · refine .bind .release fun _ _ => .ret ?_ ⟨hheaders.headers, hheaders.parts⟩
    simp only [RequestBlocks.owned, hnone]
  · refine .ret ?_ ⟨hheaders.headers, hheaders.parts⟩
    simp only [RequestBlocks.owned, hnone, Option.map_none, Option.map_some, pointed_none,
      pointed_some]
    abel

theorem requestFree_transfers (hsound : req.Sound) :
    Transfers others req.owned (requestFree req) (fun _ => 0)
      fun r => r = { req with
        url := none
        body := none
        headers := .init req.headers.slots
        parts := .init req.parts.slots } := by
  have howned : req.owned = stringBlock req.url + (pointed (req.body.map HeapBytes.block) +
      (headersOwned req.headers + partsOwned req.parts)) := by
    rw [RequestBlocks.owned, add_assoc, add_assoc]
  rw [howned]
  refine .bind freeString_transfers fun _ _ => .bind .free fun _ _ => ?_
  refine .bind (headersFree_transfers hsound.headers).frame ?_
  rintro _ rfl
  rw [zero_add]
  refine .bind (partsFree_transfers hsound.parts) ?_
  rintro _ rfl
  exact .ret rfl rfl

end Request
/-- A call on a request. -/
inductive RequestCall where
  | strdupUrl (url : Argument)
  | headersAdd (key value : Option Argument)
  | headersRemove (key : Option Argument)
  | setAuthBearer (token : Option Argument)
  | setAuthBasic (token : Option Argument)
  | setAuthBasicUserpwd (junk : Memory UInt8) (username password : Option Argument)
  | addPart (name filename contentType : Option Argument) (data : Option (List UInt8))
      (dataLen : ℕ) (held : ∀ block ∈ data, dataLen ≤ block.length)
  | addPartHeaderLast (key value : Option Argument)
  | flattenParts (vsnprintf : Vsnprintf) (fresh : Memory UInt8) (rand : UInt32)
  | initForm (url : Option Argument) (fields : List FormField)
  | free

namespace RequestCall

/-- The request afterwards, and the code. -/
def run (req : RequestBlocks) : RequestCall → HeapM (RequestBlocks × Option ErrorCode)
  | strdupUrl url => do
    let copy ← strdup url
    pure ({ req with url := copy }, if copy.isNone then some .nomem else none)
  | headersAdd key value => do
    let (headers, rc) ← Owned.headersAdd req.headers key value
    pure ({ req with headers := headers }, rc)
  | headersRemove key => do
    let (headers, rc) ← Owned.headersRemove req.headers key
    pure ({ req with headers := headers }, rc)
  | setAuthBearer token => Owned.setAuthBearer req token
  | setAuthBasic token => Owned.setAuthBasic req token
  | setAuthBasicUserpwd junk username password =>
    Owned.setAuthBasicUserpwd junk req username password
  | addPart name filename contentType data dataLen held => do
    let (parts, rc) ← Owned.addPart req.parts name filename contentType data dataLen held
    pure ({ req with parts := parts }, rc)
  | addPartHeaderLast key value => do
    let (parts, rc) ← Owned.addPartHeaderLast req.parts key value
    pure ({ req with parts := parts }, rc)
  | flattenParts vsnprintf fresh rand => Owned.flattenParts vsnprintf fresh rand req
  | initForm url fields => Owned.initForm req url fields
  | free => do
    let req ← requestFree req
    pure (req, none)

/-- What a caller owes. The strings that it passes are there; a builder gets a request without a URL
and a body, which it would overwrite; and the key of a removal is none of the strings that go. -/
def Proper (others : Set ℕ) (req : RequestBlocks) : RequestCall → Prop
  | strdupUrl url => url.Live req.strings others ∧ req.url = none
  | headersAdd key value | addPartHeaderLast key value =>
    (∀ s ∈ key, s.Live req.strings others) ∧ ∀ s ∈ value, s.Live req.strings others
  | headersRemove key => ∀ s ∈ key, s.Live (stringBlock req.url +
      pointed (req.body.map HeapBytes.block) + partStrings req.parts) others
  | setAuthBearer token | setAuthBasic token => ∀ s ∈ token, s.Live req.strings others
  | setAuthBasicUserpwd _ username password =>
    (∀ s ∈ username, s.Live req.strings others) ∧ ∀ s ∈ password, s.Live req.strings others
  | addPart name filename contentType _ _ _ =>
    (∀ s ∈ name, s.Live req.strings others) ∧ (∀ s ∈ filename, s.Live req.strings others) ∧
      ∀ s ∈ contentType, s.Live req.strings others
  | flattenParts _ _ _ | free => True
  | initForm url _ => (∀ s ∈ url, s.Live req.strings others) ∧ req.url = none ∧ req.body = none

end RequestCall

/-- One call, with no result where it misuses a block. -/
def requestStep (w : RequestBlocks × Allocator) (call : RequestCall) :
    Option (RequestBlocks × Allocator) :=
  (call.run w.1 w.2).map fun r => (r.1.1, r.2)

section Runs

variable {others : Set ℕ} {req : RequestBlocks}

/-- A string that is not one of the parts, seen from the list of parts. -/
theorem Argument.Live.inParts {s : Argument} (h : s.Live req.strings others) :
    s.Live (partStrings req.parts) (others ∪
      {b | b ∈ stringBlock req.url + pointed (req.body.map HeapBytes.block) +
        headersOwned req.headers}) := by
  intro b hb
  rcases h b hb with hmem | hother
  · rcases Multiset.mem_add.mp hmem with hmem | hmem
    · exact .inr (.inr (Multiset.mem_of_le (add_le_add_right (headerStrings_le _) _) hmem))
    · exact .inl hmem
  · exact .inr (.inl hother)

theorem requestParts_transfers {p : HeapM (PartBlocks × Option ErrorCode)} (hsound : req.Sound)
    (hp : Transfers (others ∪ {b | b ∈ stringBlock req.url +
        pointed (req.body.map HeapBytes.block) + headersOwned req.headers})
      (partsOwned req.parts) p (fun r => partsOwned r.1) fun r => r.1.Sound PartSlot.Full) :
    Transfers others req.owned (p >>= fun r => pure ({ req with parts := r.1 }, r.2))
      (fun r => r.1.owned) fun r => r.1.Sound := by
  refine .bind (hp.frame.of_eq (add_comm _ _)) fun r hr => ?_
  exact .ret (add_comm _ _) ⟨hsound.headers, hr⟩

theorem RequestCall.run_transfers (call : RequestCall) (hsound : req.Sound)
    (hproper : call.Proper others req) :
    Transfers others req.owned (call.run req) (fun r => r.1.owned) fun r => r.1.Sound := by
  have hlive {s : Argument} (h : s.Live req.strings others) :
      s.Live (0 + req.strings) others := h.mono (zero_add _).ge
  have hentry {s : Argument} (h : s.Live req.strings others) :=
    h.inParts.mono (partStrings_le req.parts)
  cases call with
  | strdupUrl url =>
    refine .bind (strdup_transfers (hproper.1.mono req.strings_le)) fun copy _ => ?_
    refine .ret ?_ ⟨hsound.headers, hsound.parts⟩
    simp only [RequestBlocks.owned, hproper.2, stringBlock_none]
    abel
  | headersAdd key value =>
    refine .bind ((requestHeaders_transfers hsound (fun s hs => hlive (hproper.1 s hs))
      fun s hs => hlive (hproper.2 s hs)).conseq (zero_add _).symm
        fun _ h => ⟨(zero_add _).symm, h⟩) ?_
    exact fun _ h => .ret rfl h
  | headersRemove key =>
    have hsplit (headers : HeaderBlocks) : RequestBlocks.owned { req with headers := headers } =
        headersOwned headers + (stringBlock req.url + pointed (req.body.map HeapBytes.block) +
          partsOwned req.parts) := by
      simp only [RequestBlocks.owned]
      abel
    refine .bind ((headersRemove_transfers ?_ hsound.headers).frame.of_eq
      (hsplit req.headers)) ?_
    · intro s hs b hb
      rcases hproper s hs b hb with hmem | hother
      · exact .inr (.inr (Multiset.mem_of_le (add_le_add_right
          ((partStrings_le _).trans BlockArray.entryBlocks_le) _) hmem))
      · exact .inr (.inl hother)
    · exact fun r hr => .ret (hsplit r.1) ⟨hr, hsound.parts⟩
  | setAuthBearer token =>
    exact (setAuth_transfers hsound fun s hs => hlive (hproper s hs)).conseq (zero_add _).symm
      fun _ h => ⟨(zero_add _).symm, h⟩
  | setAuthBasic token =>
    exact (setAuth_transfers hsound fun s hs => hlive (hproper s hs)).conseq (zero_add _).symm
      fun _ h => ⟨(zero_add _).symm, h⟩
  | setAuthBasicUserpwd junk username password =>
    exact setAuthBasicUserpwd_transfers hsound hproper.1 hproper.2
  | addPart name filename contentType data dataLen held =>
    exact requestParts_transfers hsound (addPart_transfers hsound.parts
      (fun s hs => hentry (hproper.1 s hs)) (fun s hs => hentry (hproper.2.1 s hs))
      fun s hs => hentry (hproper.2.2 s hs))
  | addPartHeaderLast key value =>
    exact requestParts_transfers hsound (addPartHeaderLast_transfers hsound.parts
      (fun s hs => (hproper.1 s hs).inParts) fun s hs => (hproper.2 s hs).inParts)
  | flattenParts _ _ _ => exact flattenParts_transfers hsound
  | initForm url fields => exact initForm_transfers hsound hproper.1 hproper.2
  | free =>
    refine .bind (requestFree_transfers hsound) ?_
    rintro _ rfl
    exact .ret rfl ⟨BlockArray.sound_init _, BlockArray.sound_init _⟩

/-- A string literal as an argument. -/
def said (s : String) : Option Argument := some (.static (literal s))

/-- A form with a file, for which memory runs out on the way. -/
def requestVisit : List RequestCall :=
  [.headersAdd (said "Accept") (said "text/html"),
    .addPart (said "file") (said "a.txt") (said "text/plain") none 0 (by simp),
    .addPartHeaderLast (said "X-Part") (said "1"),
    .addPart (said "more") none none none 0 (by simp),
    .flattenParts vsnprintfC99 (fun _ => 0) 7,
    .setAuthBearer (said "token")]

end Runs
end AbstractHttp.Http.Owned
