import Passalong.Lib.Utf8
import Passalong.Reads
import Passalong.Tickets

/-!
# Listing and resolving items (`workspace.rs`, `handlers/items.rs`)

`listItems` and `listItemIds` with `after`, and `resolveItem`, which turns what a user typed
into one item.

- `Resolves` says what each answer of `resolveItem` means, and `resolveItem_resolves` that
  it does: the candidates are the items of the current generation that what was typed is a
  prefix of, all of them and newest first. A whole id in any spelling is its item's
  (`resolveItem_spelled`).
- `listItems` lists the ids and then looks at one item after another, with no lock between:
  `Interleaved.listed` is its answer when anything goes on meanwhile. What is listed was
  stored, and an item that stays is not left out (`listed_run`).
-/

namespace Passalong

open Lib

/-! ## `resolveItem` -/

/-- What `resolveItem` answers. -/
inductive Resolved where
  | id (id : ItemId)
  /-- Several match; newest first. -/
  | ambiguous (ids : List ItemId)
  | notFound
  | invalidPrefix
  deriving DecidableEq, Repr

/-- `u8::is_ascii_hexdigit`. -/
def isAsciiHexdigit (b : UInt8) : Bool :=
  (0x30 ≤ b && b ≤ 0x39) || (0x41 ≤ b && b ≤ 0x46) || (0x61 ≤ b && b ≤ 0x66)

/-- The byte of a dash. -/
def dashByte : UInt8 := 0x2d

/-- What was typed, trimmed and in lower case. -/
def typedText (input : String) : List Char := (trim input.toList).map Char.toLower

/-- At least four bytes, hex digits and at most one dash. -/
def wellFormed (typed : List Char) : Bool :=
  let bytes := Utf8.encode typed
  4 ≤ bytes.length && bytes.all (fun b => isAsciiHexdigit b || b = dashByte) &&
    (bytes.filter fun b => b = dashByte).length ≤ 1

/-- What is compared with what was typed: the whole id when that has a dash, and the content
key when it has none. -/
def ItemId.sought (typed : List Char) (id : ItemId) : List Char :=
  if '-' ∈ typed then id.asStr.toList else id.contentKeyStr.toList

namespace Rules

variable (r : Rules)

def resolveItem (input : String) : Resolved :=
  let typed := typedText input
  if !wellFormed typed then .invalidPrefix
  else
    match (r.itemIds .current).filter fun id => typed.isPrefixOf (id.sought typed) with
    | [] => .notFound
    | [id] => .id id
    | ids => .ambiguous ids

/-- `listItemIds` with `after`: the ids newer than it, newest first. -/
def itemIdsAfter (partition : Partition) (after : Option ItemId) : List ItemId :=
  match after with
  | none => r.itemIds partition
  | some after => (r.itemIds partition).filter fun id => after < id

end Rules

/-! ### What the answers mean -/

/-- An item of the current generation that what was typed is a prefix of. -/
def Rules.Candidate (r : Rules) (typed : List Char) (id : ItemId) : Prop :=
  (∃ item, (r.shelf.generation r.record.generation)[id]? = some item) ∧ typed <+: id.sought typed

/-- What each answer means. -/
inductive Rules.Resolves (r : Rules) (typed : List Char) : Resolved → Prop
  | id {id : ItemId} (hformed : wellFormed typed = true) (hid : r.Candidate typed id)
      (honly : ∀ other, r.Candidate typed other → other = id) : Resolves r typed (.id id)
  | ambiguous {ids : List ItemId} (hformed : wellFormed typed = true) (hmany : 2 ≤ ids.length)
      (hnewest : ids.Pairwise (· > ·)) (hall : ∀ id, id ∈ ids ↔ r.Candidate typed id) :
      Resolves r typed (.ambiguous ids)
  | notFound (hformed : wellFormed typed = true) (hnone : ∀ id, ¬ r.Candidate typed id) :
      Resolves r typed .notFound
  | invalidPrefix (hformed : wellFormed typed = false) : Resolves r typed .invalidPrefix

/-- Ids are listed newest first, each once. -/
theorem MemoryShelf.ids_pairwise (s : MemoryShelf) (g : Nat) : (s.ids g).Pairwise (· > ·) := by
  unfold ids
  rw [List.pairwise_reverse]
  exact (s.generation g).ordered_keys.imp fun h => compare_lt_iff_lt.mp h

theorem Rules.mem_itemIds_current (r : Rules) (id : ItemId) :
    id ∈ r.itemIds .current ↔
      ∃ item, (r.shelf.generation r.record.generation)[id]? = some item :=
  MemoryShelf.mem_ids r.shelf

/-- **Every answer means what it says.** -/
theorem Rules.resolveItem_resolves (r : Rules) (input : String) :
    r.Resolves (typedText input) (r.resolveItem input) := by
  unfold resolveItem
  dsimp only
  cases hformed : wellFormed (typedText input) with
  | false => exact .invalidPrefix hformed
  | true =>
    have hall : ∀ id, id ∈ (r.itemIds .current).filter
        (fun id => (typedText input).isPrefixOf (id.sought (typedText input))) ↔
        r.Candidate (typedText input) id := by
      intro id
      rw [List.mem_filter, r.mem_itemIds_current, List.isPrefixOf_iff_prefix]
      rfl
    have hnewest : ((r.itemIds .current).filter fun id =>
        (typedText input).isPrefixOf (id.sought (typedText input))).Pairwise (· > ·) :=
      (r.shelf.ids_pairwise r.record.generation).filter _
    rw [if_neg (by simp)]
    generalize (r.itemIds .current).filter
      (fun id => (typedText input).isPrefixOf (id.sought (typedText input))) = ids at hall hnewest
    rcases ids with _ | ⟨id, _ | ⟨id', ids⟩⟩
    · exact .notFound hformed fun id hid => List.not_mem_nil ((hall id).mpr hid)
    · refine .id hformed ((hall id).mp List.mem_cons_self) fun other hother => ?_
      exact List.mem_singleton.mp ((hall other).mpr hother)
    · exact .ambiguous hformed (by simp) hnewest hall

/-! ### Any spelling of an id -/

/-- A text is spelled by another that has white space around it and capitals for small
letters. -/
def SpellsId (input : String) (text : List Char) : Prop :=
  ∃ before letters after, input.toList = before ++ letters ++ after ∧
    (∀ c ∈ before, isWhitespace c) ∧ (∀ c ∈ after, isWhitespace c) ∧
    letters.map Char.toLower = text

/-- A digit or a dash. -/
def Dashed (c : Char) : Prop := c = '-' ∨ ∃ d, c = hexChar d

theorem not_isWhitespace_hexChar (d : Fin 16) : isWhitespace (hexChar d) = false := by
  revert d
  decide

/-- White space has no capitals. -/
theorem toLower_eq_self_of_isWhitespace {c : Char} (h : isWhitespace c) : c.toLower = c := by
  unfold Char.toLower
  rw [dif_neg]
  rintro ⟨hlow, hhigh⟩
  have hA : 65 ≤ c.toNat := UInt32.le_iff_toNat_le.mp hlow
  have hZ : c.toNat ≤ 90 := UInt32.le_iff_toNat_le.mp hhigh
  simp only [isWhitespace, Bool.or_eq_true, Bool.and_eq_true, decide_eq_true_eq] at h
  omega

theorem Dashed.isAscii {c : Char} (h : Dashed c) : Utf8.isAscii c := by
  obtain rfl | ⟨d, rfl⟩ := h
  · decide
  · revert d
    decide

theorem Dashed.byte {c : Char} (h : Dashed c) :
    (isAsciiHexdigit c.toNat.toUInt8 || c.toNat.toUInt8 = dashByte) = true := by
  obtain rfl | ⟨d, rfl⟩ := h
  · decide
  · revert d
    decide

theorem Dashed.isDash {c : Char} (h : Dashed c) : c.toNat.toUInt8 = dashByte ↔ c = '-' := by
  obtain rfl | ⟨d, rfl⟩ := h
  · decide
  · revert d
    decide

theorem not_isWhitespace {c : Char} (h : Dashed c.toLower) : isWhitespace c = false := by
  by_contra hspace
  rw [Bool.not_eq_false] at hspace
  rw [toLower_eq_self_of_isWhitespace hspace] at h
  obtain rfl | ⟨d, rfl⟩ := h
  · revert hspace
    decide
  · rw [not_isWhitespace_hexChar] at hspace
    cases hspace

/-- What spells digits and dashes is read as them. -/
theorem typedText_of_spellsId {input : String} {text : List Char} (hdashed : ∀ c ∈ text, Dashed c)
    (h : SpellsId input text) : typedText input = text := by
  obtain ⟨before, letters, after, hinput, hbefore, hafter, rfl⟩ := h
  have hletters : ∀ c ∈ letters, isWhitespace c = false := fun c hc =>
    not_isWhitespace (hdashed _ (List.mem_map_of_mem hc))
  unfold typedText
  rw [hinput, trim_around hbefore hafter, trim_eq]
  · exact fun c hc => hletters c (List.mem_of_mem_head? hc)
  · exact fun c hc => hletters c (List.mem_of_mem_getLast? hc)

theorem dashed_numberText (width n : Nat) : ∀ c ∈ numberText width n, Dashed c := by
  intro c hc
  obtain ⟨d, -, rfl⟩ := List.mem_map.mp hc
  exact .inr ⟨d, rfl⟩

theorem dash_not_mem_numberText (width n : Nat) : '-' ∉ numberText width n := by
  intro h
  obtain ⟨d, -, hd⟩ := List.mem_map.mp h
  revert d
  decide

theorem ItemId.toList_asStr (id : ItemId) :
    id.asStr.toList = numberText 8 id.ts ++ '-' :: numberText 12 id.contentKey :=
  String.toList_ofList

theorem ItemId.toList_contentKeyStr (id : ItemId) :
    id.contentKeyStr.toList = numberText 12 id.contentKey :=
  String.toList_ofList

/-- Digits with at most one dash, and four of them, are well formed. -/
theorem wellFormed_of_dashed {typed : List Char} (hlong : 4 ≤ typed.length)
    (hdashed : ∀ c ∈ typed, Dashed c) (hone : (typed.filter (· = '-')).length ≤ 1) :
    wellFormed typed = true := by
  have hbytes : Utf8.encode typed = typed.map fun c => c.toNat.toUInt8 :=
    Utf8.encode_ascii fun c hc => (hdashed c hc).isAscii
  have hall : (typed.map fun c => c.toNat.toUInt8).all
      (fun b => isAsciiHexdigit b || b = dashByte) = true := by
    rw [List.all_map, List.all_eq_true]
    exact fun c hc => (hdashed c hc).byte
  have hdashes : ((typed.map fun c => c.toNat.toUInt8).filter fun b => b = dashByte).length =
      (typed.filter (· = '-')).length := by
    rw [List.filter_map, List.length_map]
    refine congrArg List.length (List.filter_congr fun c hc => ?_)
    exact decide_eq_decide.mpr (hdashed c hc).isDash
  unfold wellFormed
  dsimp only
  rw [hbytes, hall, hdashes, List.length_map, decide_eq_true hlong, decide_eq_true hone]
  rfl

/-- A whole id is well formed. -/
theorem ItemId.wellFormed_asStr (id : ItemId) : wellFormed id.asStr.toList = true := by
  have hclean : ∀ width n, (numberText width n).filter (· = '-') = [] := by
    intro width n
    rw [List.filter_eq_nil_iff]
    intro c hc
    rw [decide_eq_true_eq]
    rintro rfl
    exact dash_not_mem_numberText width n hc
  rw [id.toList_asStr]
  refine wellFormed_of_dashed (by simp) (fun c hc => ?_) ?_
  · rcases List.mem_append.mp hc with hc | hc
    · exact dashed_numberText _ _ c hc
    · rcases List.mem_cons.mp hc with rfl | hc
      · exact .inl rfl
      · exact dashed_numberText _ _ c hc
  · rw [List.filter_append, hclean, List.nil_append, List.filter_cons, hclean]
    decide

/-- Ids with the same text are the same. -/
theorem ItemId.eq_of_prefix {id other : ItemId} (h : id.asStr.toList <+: other.asStr.toList) :
    other = id := by
  have hlength : id.asStr.toList.length = other.asStr.toList.length := by
    rw [id.toList_asStr, other.toList_asStr]
    simp
  have htext : id.asStr = other.asStr := String.toList_inj.mp (h.eq_of_length hlength)
  exact (injective_of_parse ItemId.parse_asStr htext).symm

/-- **A whole id, however it is spelled, resolves to its item.** -/
theorem Rules.resolveItem_spelled (r : Rules) {id : ItemId} {input : String}
    (hid : id ∈ r.itemIds .current) (h : SpellsId input id.asStr.toList) :
    r.resolveItem input = .id id := by
  have hdash : '-' ∈ id.asStr.toList := by
    rw [id.toList_asStr]
    exact List.mem_append_right _ List.mem_cons_self
  have htyped : typedText input = id.asStr.toList := by
    refine typedText_of_spellsId (fun c hc => ?_) h
    rw [id.toList_asStr] at hc
    rcases List.mem_append.mp hc with hc | hc
    · exact dashed_numberText _ _ c hc
    · rcases List.mem_cons.mp hc with rfl | hc
      · exact .inl rfl
      · exact dashed_numberText _ _ c hc
  have hsought : ∀ other : ItemId, other.sought id.asStr.toList = other.asStr.toList :=
    fun other => if_pos hdash
  have hself : r.Candidate id.asStr.toList id :=
    ⟨(r.mem_itemIds_current id).mp hid, by rw [hsought]⟩
  have honly : ∀ other, r.Candidate id.asStr.toList other → other = id := by
    intro other hother
    have hprefix := hother.2
    rw [hsought] at hprefix
    exact ItemId.eq_of_prefix hprefix
  have hresolves := r.resolveItem_resolves input
  rw [htyped] at hresolves
  generalize r.resolveItem input = answer at hresolves
  cases hresolves with
  | id _ hother _ => rw [honly _ hother]
  | @ambiguous ids _ hmany hnewest hall =>
    -- two different ids would both be this one
    rcases ids with _ | ⟨a, _ | ⟨b, ids⟩⟩
    · simp at hmany
    · simp at hmany
    · have ha := honly a ((hall a).mp List.mem_cons_self)
      have hb := honly b ((hall b).mp (List.mem_cons_of_mem _ List.mem_cons_self))
      have hlt := List.rel_of_pairwise_cons hnewest (List.mem_cons_self (a := b) (l := ids))
      rw [ha, hb] at hlt
      exact absurd hlt (lt_irrefl id)
  | notFound _ hnone => exact absurd hself (hnone id)
  | invalidPrefix hformed =>
    rw [id.wellFormed_asStr] at hformed
    cases hformed

/-- **Four characters of a content key find its items**, alone or among others. -/
theorem Rules.resolveItem_key (r : Rules) {id : ItemId} {input : String} {n : Nat}
    (hid : id ∈ r.itemIds .current) (hlong : 4 ≤ n)
    (h : SpellsId input (id.contentKeyStr.toList.take n)) :
    r.resolveItem input = .id id ∨ ∃ ids, r.resolveItem input = .ambiguous ids ∧ id ∈ ids := by
  have hdashed : ∀ c ∈ id.contentKeyStr.toList.take n, Dashed c := by
    intro c hc
    have hmem := List.mem_of_mem_take hc
    rw [id.toList_contentKeyStr] at hmem
    exact dashed_numberText _ _ c hmem
  have hclean : '-' ∉ id.contentKeyStr.toList.take n := by
    intro hc
    have hmem := List.mem_of_mem_take hc
    rw [id.toList_contentKeyStr] at hmem
    exact dash_not_mem_numberText _ _ hmem
  have hformed : wellFormed (id.contentKeyStr.toList.take n) = true := by
    refine wellFormed_of_dashed ?_ hdashed ?_
    · rw [List.length_take, id.toList_contentKeyStr, length_numberText]
      omega
    · rw [List.filter_eq_nil_iff.mpr]
      · exact Nat.zero_le 1
      · intro c hc hdash
        rw [decide_eq_true_eq.mp hdash] at hc
        exact hclean hc
  have hself : r.Candidate (id.contentKeyStr.toList.take n) id := by
    refine ⟨(r.mem_itemIds_current id).mp hid, ?_⟩
    rw [show id.sought _ = id.contentKeyStr.toList from if_neg hclean]
    exact List.take_prefix _ _
  have hresolves := r.resolveItem_resolves input
  rw [typedText_of_spellsId hdashed h] at hresolves
  generalize r.resolveItem input = answer at hresolves
  cases hresolves with
  | id _ _ honly =>
    rw [honly id hself]
    exact .inl rfl
  | ambiguous _ _ _ hall => exact .inr ⟨_, rfl, (hall id).mpr hself⟩
  | notFound _ hnone => exact absurd hself (hnone id)
  | invalidPrefix hnot =>
    rw [hformed] at hnot
    cases hnot

/-- **What a user types finds what it should**: every answer means what it says, a whole id
in any spelling is its item's, and from four characters on a part of its content key finds
an item too. -/
theorem Rules.resolveItem_exact (r : Rules) (input : String) :
    r.Resolves (typedText input) (r.resolveItem input) ∧
    ∀ id ∈ r.itemIds .current,
      (SpellsId input id.asStr.toList → r.resolveItem input = .id id) ∧
      ∀ n, 4 ≤ n → SpellsId input (id.contentKeyStr.toList.take n) →
        r.resolveItem input = .id id ∨
          ∃ ids, r.resolveItem input = .ambiguous ids ∧ id ∈ ids :=
  ⟨r.resolveItem_resolves input, fun _ hid =>
    ⟨r.resolveItem_spelled hid, fun _ hlong => r.resolveItem_key hid hlong⟩⟩

/-! ## `listItems`, with anything between its looks -/

/-- `listItems` on a shelf that nobody changes meanwhile. -/
def Rules.itemsAfter (r : Rules) (partition : Partition) (after : Option ItemId) :
    List (ItemId × StoredItem) :=
  (r.itemIdsAfter partition after).filterMap fun id => (r.item partition id).map (Prod.mk id)

/-- An id is newer than `after`, if that is given. -/
def newerThan (after : Option ItemId) (id : ItemId) : Bool :=
  match after with
  | none => true
  | some after => after < id

section
variable [Crates]

namespace World

/-- The looks at some items of a generation, each preceded by what happens before it. An item
that is gone by then is left out. -/
def looks (limits : Limits) (g : Nat) (w : World) : List ItemId → List (List Event) →
    List (ItemId × StoredItem)
  | [], _ => []
  | id :: ids, gaps =>
    let now := w.run limits (gaps.headD [])
    match now.shelf.get g id with
    | some item => (id, item) :: looks limits g now ids gaps.tail
    | none => looks limits g now ids gaps.tail

/-- What `listItems` answers that loads the record now. The first gap is before the ids are
listed, and each of the others before one of the looks. -/
def listed (limits : Limits) (w : World) (partition : Partition) (after : Option ItemId)
    (gaps : List (List Event)) : List (ItemId × StoredItem) :=
  match w.record.generationOf partition with
  | none => []
  | some g =>
    let now := w.run limits (gaps.headD [])
    looks limits g now ((now.shelf.ids g).filter (newerThan after)) gaps.tail

variable {limits : Limits} {w : World} {g : Nat} {id : ItemId} {item : Item}

/-- An item stays through a run in which no event takes it. -/
theorem keeps_item_run (hitem : (w.shelf.generation g)[id]? = some item) {es : List Event}
    (hkept : Runs.Along (exec limits) (fun v e => v.takes limits g id e = false) w es) :
    ((w.run limits es).shelf.generation g)[id]? = some item :=
  Runs.invariant (I := fun v : World => (v.shelf.generation g)[id]? = some item) (exec limits)
    (fun _ _ hv htakes => item_of_not_takes hv htakes) hitem hkept

/-! ### What is listed -/

omit [Crates] in
theorem take_gaps {α : Type} (gaps : List (List α)) (n : Nat) :
    (gaps.take (n + 1)).flatten = gaps.headD [] ++ (gaps.tail.take n).flatten := by
  cases gaps <;> simp

/-- The looks answer some of the ids, in their order. -/
theorem looks_sublist (w : World) (ids : List ItemId) (gaps : List (List Event)) :
    ((w.looks limits g ids gaps).map Prod.fst).Sublist ids := by
  induction ids generalizing w gaps with
  | nil => exact List.Sublist.refl _
  | cons id ids ih =>
    unfold looks
    dsimp only
    split
    · exact (ih _ _).cons_cons id
    · exact (ih _ _).cons id

/-- What a look answers was stored at that moment. -/
theorem looks_sound (w : World) (ids : List ItemId) (gaps : List (List Event))
    {found : StoredItem} (h : (id, found) ∈ w.looks limits g ids gaps) :
    ∃ n, (w.run limits (gaps.take n).flatten).shelf.get g id = some found := by
  induction ids generalizing w gaps with
  | nil => cases h
  | cons other ids ih =>
    have hrest : ∀ n, w.run limits (gaps.take (n + 1)).flatten =
        (w.run limits (gaps.headD [])).run limits (gaps.tail.take n).flatten := by
      intro n
      rw [take_gaps]
      exact Runs.run_append _ _ _ _
    unfold looks at h
    dsimp only at h
    split at h
    · rename_i item hitem
      rcases List.mem_cons.mp h with hhead | htail
      · cases hhead
        refine ⟨1, ?_⟩
        rw [hrest 0]
        exact hitem
      · obtain ⟨n, hn⟩ := ih _ _ htail
        exact ⟨n + 1, by rw [hrest, hn]⟩
    · obtain ⟨n, hn⟩ := ih _ _ h
      exact ⟨n + 1, by rw [hrest, hn]⟩

/-- An item that stays is answered, as it is. -/
theorem looks_complete (w : World) (ids : List ItemId) (gaps : List (List Event))
    (hid : id ∈ ids) (hitem : (w.shelf.generation g)[id]? = some item)
    (hkept : Runs.Along (exec limits) (fun v e => v.takes limits g id e = false) w gaps.flatten) :
    (id, item.stored) ∈ w.looks limits g ids gaps := by
  induction ids generalizing w gaps with
  | nil => cases hid
  | cons other ids ih =>
    have hflatten : gaps.flatten = gaps.headD [] ++ gaps.tail.flatten := by
      cases gaps <;> simp
    rw [hflatten, Runs.along_append] at hkept
    have hnow := keeps_item_run hitem hkept.1
    unfold looks
    dsimp only
    by_cases hother : other = id
    · subst hother
      have hget : (w.run limits (gaps.headD [])).shelf.get g other = some item.stored := by
        rw [MemoryShelf.get, hnow]
        rfl
      rw [hget]
      exact List.mem_cons_self
    · have hmem : id ∈ ids := (List.mem_cons.mp hid).resolve_left (Ne.symm hother)
      have hrest := ih _ _ hmem hnow hkept.2
      split
      · exact List.mem_cons_of_mem _ hrest
      · exact hrest

/-- Where every item stays, the looks answer what was there at one moment. -/
theorem looks_atOnce (w : World) (ids : List ItemId) (gaps : List (List Event)) (s : MemoryShelf)
    (hall : ∀ id ∈ ids, ∃ item, (s.generation g)[id]? = some item ∧
      (w.shelf.generation g)[id]? = some item ∧
      Runs.Along (exec limits) (fun v e => v.takes limits g id e = false) w gaps.flatten) :
    w.looks limits g ids gaps =
      ids.filterMap fun id => (s.get g id).map (Prod.mk id) := by
  induction ids generalizing w gaps with
  | nil => rfl
  | cons id ids ih =>
    have hflatten : gaps.flatten = gaps.headD [] ++ gaps.tail.flatten := by
      cases gaps <;> simp
    obtain ⟨item, hthere, hhere, hkept⟩ := hall id List.mem_cons_self
    rw [hflatten, Runs.along_append] at hkept
    have hget : (w.run limits (gaps.headD [])).shelf.get g id = s.get g id := by
      rw [MemoryShelf.get, MemoryShelf.get, keeps_item_run hhere hkept.1, hthere]
    have hsome : s.get g id = some item.stored := by
      rw [MemoryShelf.get, hthere]
      rfl
    have hrest := ih (w.run limits (gaps.headD [])) gaps.tail fun other hother => by
      obtain ⟨item', hthere', hhere', hkept'⟩ := hall other (List.mem_cons_of_mem _ hother)
      rw [hflatten, Runs.along_append] at hkept'
      exact ⟨item', hthere', keeps_item_run hhere' hkept'.1, hkept'.2⟩
    unfold looks
    dsimp only
    rw [hget, hsome, List.filterMap_cons, hsome, hrest]
    rfl

omit [Crates] in
theorem itemIdsAfter_eq (r : Rules) {partition : Partition}
    (hg : r.record.generationOf partition = some g) (after : Option ItemId) :
    r.itemIdsAfter partition after = (r.shelf.ids g).filter (newerThan after) := by
  unfold Rules.itemIdsAfter Rules.itemIds
  rw [hg]
  cases after with
  | none => exact (List.filter_true _).symm
  | some after => rfl

/-- What a `listItems` answers while anything else goes on. -/
structure Listed (limits : Limits) (w : World) (partition : Partition) (after : Option ItemId)
    (gaps : List (List Event)) (g : Nat) (answer : List (ItemId × StoredItem)) : Prop where
  /-- Newest first, each id once. -/
  newest : (answer.map Prod.fst).Pairwise (· > ·)
  /-- Every item is newer than `after` and was stored at a moment of the request. -/
  sound : ∀ id found, (id, found) ∈ answer → newerThan after id = true ∧
    ∃ n, (w.run limits (gaps.take n).flatten).shelf.get g id = some found
  /-- An item that is there when the ids are listed and stays is not left out. -/
  complete : ∀ (id : ItemId) (item : Item), newerThan after id = true →
    ((w.run limits (gaps.headD [])).shelf.generation g)[id]? = some item →
    Runs.Along (exec limits) (fun v e => v.takes limits g id e = false)
      (w.run limits (gaps.headD [])) gaps.tail.flatten →
    (id, item.stored) ∈ answer
  /-- Where every item of the generation stays, it is what was there when they were listed. -/
  atOnce : ∀ call, (∀ id ∈ (w.run limits (gaps.headD [])).shelf.ids g,
      Runs.Along (exec limits) (fun v e => v.takes limits g id e = false)
        (w.run limits (gaps.headD [])) gaps.tail.flatten) →
    answer =
      ((w.run limits (gaps.headD [])).reading limits call w.record).itemsAfter partition after

/-- **A listing is right whatever goes on meanwhile.** -/
theorem listed_run (limits : Limits) (w : World) (partition : Partition) (after : Option ItemId)
    (gaps : List (List Event)) {g : Nat} (hg : w.record.generationOf partition = some g) :
    Listed limits w partition after gaps g (w.listed limits partition after gaps) := by
  have hlisted : w.listed limits partition after gaps =
      looks limits g (w.run limits (gaps.headD []))
        (((w.run limits (gaps.headD [])).shelf.ids g).filter (newerThan after)) gaps.tail := by
    unfold listed
    rw [hg]
  rw [hlisted]
  refine ⟨?_, ?_, ?_, ?_⟩
  · exact (((MemoryShelf.ids_pairwise _ g).filter _).sublist (looks_sublist _ _ _))
  · intro id found hmem
    obtain ⟨n, hn⟩ := looks_sound _ _ _ hmem
    refine ⟨?_, n + 1, ?_⟩
    · have hid := (looks_sublist _ _ _).subset (List.mem_map_of_mem (f := Prod.fst) hmem)
      exact (List.mem_filter.mp hid).2
    · rw [take_gaps]
      refine (congrArg (fun v : World => v.shelf.get g id) (Runs.run_append _ _ _ _)).trans ?_
      exact hn
  · intro id item hafter hitem hkept
    refine looks_complete _ _ _ ?_ hitem hkept
    exact List.mem_filter.mpr ⟨(MemoryShelf.mem_ids _).mpr ⟨item, hitem⟩, hafter⟩
  · intro call hkept
    rw [looks_atOnce _ _ _ (w.run limits (gaps.headD [])).shelf fun id hid => by
      have hmem := (List.mem_filter.mp hid).1
      obtain ⟨item, hitem⟩ := (MemoryShelf.mem_ids _).mp hmem
      exact ⟨item, hitem, hitem, hkept id hmem⟩]
    unfold Rules.itemsAfter
    rw [itemIdsAfter_eq _ hg]
    refine List.filterMap_congr fun id _ => ?_
    unfold Rules.item
    rw [show ((w.run limits (gaps.headD [])).reading limits call w.record).record.generationOf
      partition = some g from hg]
    rfl

end World

end

namespace Sample

/-- A note that is stored. -/
def noted : List Event :=
  [.request (call 0 [1]) (.beginUpload laptop (request 2 none)),
    .request (call 0 []) (.putUploadContent laptop (upload 1) [.piece [1, 2]]),
    .request (call 0 []) (.commitUpload laptop (upload 1))]

/-- The note is listed, and deleted before it is looked at. -/
def gaps : List (List Event) := [[], [.request (call 1 []) (.deleteItem laptop .current note none)]]

end Sample

theorem World.listed_deleted :
    @World.Listed Sample.crates Sample.limits
      (@World.run Sample.crates Sample.limits .initial Sample.noted) .current none Sample.gaps 0
      (@World.listed Sample.crates Sample.limits
        (@World.run Sample.crates Sample.limits .initial Sample.noted) .current none Sample.gaps) :=
  @World.listed_run Sample.crates Sample.limits
    (@World.run Sample.crates Sample.limits .initial Sample.noted) .current none Sample.gaps 0
    (by decide +kernel)

end Passalong
