import Passalong.KeyLife

/-!
# The audit trail explains the keys (`control/mod.rs`)

Every command that changes something adds a row to `audit`, in the same transaction. No row is
ever taken out (`trail_grows`), and from the trail alone it can be told what became of any key
(`trail_explains`):

- a key that is there was made as its last `key.create` row says, and it was revoked when the
  first `key.revoke` row after that says, or not at all; neither it nor its workspace was
  deleted since;
- of a key that is gone, the trail has the deletion, the deletion of its workspace, or a
  pruning, after it was made.

`Noted` says once what a command does to the keys and the trail together.
-/

namespace Passalong

open Lib

/-! ## What the trail says of a key -/

/-- The row that notes that a key was made. -/
def KeyRow.created (r : KeyRow) : AuditRow :=
  ⟨r.createdAt, "key.create", some r.workspace, some r.keyId, some r.label⟩

namespace AuditRow

variable (a : AuditRow)

def creates (id : String) : Bool := a.action = "key.create" && a.keyId = some id

def revokes (id : String) : Bool := a.action = "key.revoke" && a.keyId = some id

/-- It notes that a key was deleted, or its workspace. -/
def deletes (id ws : String) : Bool :=
  (a.action = "key.delete" && a.keyId = some id) ||
    (a.action = "workspace.delete" && a.workspace = some ws)

/-- It notes that keys went, and this one may have been one of them. -/
def takes (id ws : String) : Bool := a.deletes id ws || a.action = "key.prune"

end AuditRow

/-- One row more, from the last row on that notes that a key was made. -/
def sinceStep (id : String) (rows : List AuditRow) (a : AuditRow) : List AuditRow :=
  if a.creates id then [a] else if rows = [] then [] else rows ++ [a]

/-- The trail from the last row on that notes that a key was made. -/
def since (id : String) (trail : List AuditRow) : List AuditRow :=
  trail.foldl (sinceStep id) []

theorem since_append (id : String) (trail : List AuditRow) (a : AuditRow) :
    since id (trail ++ [a]) = sinceStep id (since id trail) a := by
  unfold since
  rw [List.foldl_append]
  rfl

theorem sinceStep_creates {id : String} {a : AuditRow} (h : a.creates id = true)
    (rows : List AuditRow) : sinceStep id rows a = [a] := if_pos h

theorem sinceStep_cons {id : String} {a : AuditRow} (h : a.creates id = false) (made : AuditRow)
    (rest : List AuditRow) : sinceStep id (made :: rest) a = made :: (rest ++ [a]) := by
  unfold sinceStep
  rw [h, if_neg Bool.false_ne_true, if_neg (List.cons_ne_nil _ _)]
  rfl

theorem sinceStep_nil {id : String} {a : AuditRow} (h : a.creates id = false) :
    sinceStep id [] a = [] := by
  unfold sinceStep
  rw [h, if_neg Bool.false_ne_true, if_pos rfl]

namespace Control

/-! ## What a command does to the keys and the trail -/

/-- The columns that the trail speaks of are the same. -/
structure SameRow (r r' : KeyRow) : Prop where
  created : r'.created = r.created
  keyId : r'.keyId = r.keyId
  workspace : r'.workspace = r.workspace
  revokedAt : r'.revokedAt = r.revokedAt

theorem SameRow.refl (r : KeyRow) : SameRow r r := ⟨rfl, rfl, rfl, rfl⟩

/-- A command: what the keys and the trail are after it. -/
inductive Noted (c c' : Control) : Prop
  /-- Nothing that the trail speaks of has changed. -/
  | same (f : KeyRow → KeyRow) (hsame : ∀ r, SameRow r (f r)) (hkeys : c'.keys = c.keys.map f)
      (haudit : c'.audit = c.audit)
  /-- A workspace was made, or a key's expiry was moved. -/
  | other (f : KeyRow → KeyRow) (hsame : ∀ r, SameRow r (f r)) (hkeys : c'.keys = c.keys.map f)
      (a : AuditRow) (haction : a.action = "workspace.create" ∨ a.action = "key.extend")
      (haudit : c'.audit = c.audit ++ [a])
  | created (r : KeyRow) (hfresh : c.names r.keyId = false) (hrevoked : r.revokedAt = none)
      (hkeys : c'.keys = c.keys ++ [r]) (haudit : c'.audit = c.audit ++ [r.created])
  | revoked (id : String) (a : AuditRow) (haction : a.action = "key.revoke")
      (hid : a.keyId = some id)
      (hkeys : c'.keys = c.keys.map fun k =>
        if k.keyId = id then { k with revokedAt := k.revokedAt.or (some a.at') } else k)
      (haudit : c'.audit = c.audit ++ [a])
  /-- Keys went: those whose deletion the row notes, and no others unless they were pruned. -/
  | taken (stays : KeyRow → Bool) (a : AuditRow)
      (haction : a.action = "key.delete" ∨ a.action = "workspace.delete" ∨ a.action = "key.prune")
      (hgone : ∀ r, stays r = false → a.takes r.keyId r.workspace = true)
      (hstays : ∀ r, stays r = true → a.deletes r.keyId r.workspace = false)
      (hkeys : c'.keys = c.keys.filter stays) (haudit : c'.audit = c.audit ++ [a])

theorem Noted.unchanged {c c' : Control} (hkeys : c'.keys = c.keys) (haudit : c'.audit = c.audit) :
    Noted c c' :=
  .same id SameRow.refl (by rw [hkeys, List.map_id]) haudit

/-- A change of one key is noted, or refused. -/
theorem changeKey_noted (c : Control) (now : Nat) (id action : String)
    (statement : List KeyRow → List KeyRow) :
    (c.changeKey now id action statement).2 = c ∨
      ∃ ws, (c.changeKey now id action statement).2.keys = statement c.keys ∧
        (c.changeKey now id action statement).2.audit =
          c.audit ++ [⟨toDb now, action, some ws, some id, none⟩] := by
  unfold changeKey
  cases c.key id with
  | error e => exact .inl rfl
  | ok before =>
    dsimp only
    right
    refine ⟨before.workspace.asStr, ?_⟩
    split <;> exact ⟨rfl, rfl⟩

section
variable [Crates] {c : Control}

theorem authenticate_audit (c : Control) (now : Nat) (token : String) (noted : Bool) :
    (c.authenticate now token noted).2.audit = c.audit := by
  unfold authenticate
  cases ApiKey.parse token with
  | none => rfl
  | some presented =>
    dsimp only
    generalize Option.filter _ _ = found
    cases found with
    | none => rfl
    | some row =>
      dsimp only
      split
      · rfl
      split
      · rfl
      generalize ((fromDb row.lastUsedAt).all _ && noted) = writes
      cases WorkspaceId.parse row.workspace <;> cases writes <;> rfl

/-- Authenticating notes no more than a key's last use, and not in the trail. -/
theorem authenticate_noted (c : Control) (now : Nat) (token : String) (noted : Bool) :
    Noted c (c.authenticate now token noted).2 := by
  have haudit := c.authenticate_audit now token noted
  rcases (c.authenticate_tables now token noted).2 with hsame | ⟨id, hused⟩
  · exact .unchanged hsame haudit
  · refine .same _ (fun r => ?_) hused haudit
    split
    · exact ⟨rfl, rfl, rfl, rfl⟩
    · exact .refl r

/-- **What a command does to the keys and the trail.** -/
theorem noted_exec (c : Control) (e : Nat × ControlCall) : Noted c (c.exec e) := by
  obtain ⟨now, call⟩ := e
  cases call with
  | createWorkspace name quotaBytes fresh =>
    -- a workspace comes without keys: the trail notes it, the keys stay
    show Noted c (c.createWorkspace now name quotaBytes fresh).2
    unfold createWorkspace
    split
    · exact .unchanged rfl rfl
    split
    · exact .unchanged rfl rfl
    split
    · exact .unchanged rfl rfl
    · exact .other id SameRow.refl (List.map_id _).symm _ (.inl rfl) rfl
  | deleteWorkspace name =>
    -- its keys go with it, under the one note of the workspace
    show Noted c (c.deleteWorkspace now name).2
    unfold deleteWorkspace
    cases c.workspace name with
    | error e => exact .unchanged rfl rfl
    | ok found =>
      refine .taken (fun k => k.workspace ≠ found.id.asStr) _ (.inr (.inl rfl)) (fun r hr => ?_)
        (fun r hr => ?_) rfl rfl
      · have hws : r.workspace = found.id.asStr := by simpa using hr
        simp [AuditRow.takes, AuditRow.deletes, hws]
      · have hws : ¬r.workspace = found.id.asStr := by simpa using hr
        simp [AuditRow.deletes, Ne.symm hws]
  | createKey workspace label role expiresIn draws =>
    -- a key is made only of a draw that no row has
    show Noted c (c.createKey now workspace label role expiresIn draws).2
    cases hfound : c.workspace workspace with
    | error e =>
      unfold createKey
      rw [hfound]
      exact .unchanged rfl rfl
    | ok found =>
      cases hmint : c.mint draws with
      | none =>
        unfold createKey
        simp only [hfound, hmint]
        exact .unchanged rfl rfl
      | some key =>
        rw [createKey_done now label role expiresIn hfound hmint]
        have hfresh : c.names key.keyId.text = false := by simpa using List.find?_some hmint
        exact .created (createdRow now found label role expiresIn key) hfresh rfl rfl rfl
  | extendKey id expiresIn =>
    -- the calls that name a key: refused, or one row and one note
    show Noted c (c.extendKey now id expiresIn).2
    unfold extendKey
    rcases c.changeKey_noted now id "key.extend" _ with hsame | ⟨ws, hkeys, haudit⟩
    · rw [hsame]
      exact .unchanged rfl rfl
    · refine .other _ (fun r => ?_) hkeys _ (.inr rfl) haudit
      split
      · exact ⟨rfl, rfl, rfl, rfl⟩
      · exact .refl r
  | revokeKey id =>
    show Noted c (c.revokeKey now id).2
    unfold revokeKey
    rcases c.changeKey_noted now id "key.revoke" _ with hsame | ⟨ws, hkeys, haudit⟩
    · rw [hsame]
      exact .unchanged rfl rfl
    · exact .revoked id _ rfl rfl hkeys haudit
  | deleteKey id =>
    show Noted c (c.deleteKey now id).2
    unfold deleteKey
    rcases c.changeKey_noted now id "key.delete" _ with hsame | ⟨ws, hkeys, haudit⟩
    · rw [hsame]
      exact .unchanged rfl rfl
    · refine .taken _ _ (.inl rfl) (fun r hr => ?_) (fun r hr => ?_) hkeys haudit
      · have hid : r.keyId = id := by simpa using hr
        simp [AuditRow.takes, AuditRow.deletes, hid]
      · have hid : ¬r.keyId = id := by simpa using hr
        simp [AuditRow.deletes, Ne.symm hid]
  | pruneKeys olderThan =>
    -- a prune is noted only where it takes a row
    show Noted c (c.pruneKeys now olderThan).2
    unfold pruneKeys
    dsimp only
    split
    · refine .taken _ _ (.inr (.inr rfl)) (fun r _ => ?_) (fun r _ => ?_) rfl rfl
      · simp [AuditRow.takes]
      · simp [AuditRow.deletes]
    · rename_i hnone
      refine .unchanged (List.filter_eq_self.mpr fun r hr => ?_) rfl
      have hcount := Nat.eq_zero_of_not_pos hnone
      simpa using List.countP_eq_zero.mp hcount r hr
  | authenticate token noted => exact c.authenticate_noted now token noted

/-! ## What the trail explains -/

/-- What the trail says of a key that is there. -/
structure Told (trail : List AuditRow) (r : KeyRow) (rest : List AuditRow) : Prop where
  made : since r.keyId trail = r.created :: rest
  revokedAt : r.revokedAt = (rest.find? fun a => a.revokes r.keyId).map AuditRow.at'
  kept : ∀ a ∈ rest, a.deletes r.keyId r.workspace = false

/-- The trail says what became of every key. -/
structure Explained (c : Control) : Prop where
  there : ∀ r ∈ c.keys, ∃ rest, Told c.audit r rest
  gone : ∀ id, c.names id = false → ∀ made rest, since id c.audit = made :: rest →
    ∃ ws, made.workspace = some ws ∧ ∃ a ∈ rest, a.takes id ws = true

omit [Crates] in
theorem explained_empty : Explained .empty where
  there r h := by cases h
  gone id _ made rest h := by cases h

omit [Crates] in
/-- What is kept of a key stays so under a row more that does not note its deletion. -/
theorem Told.kept_more {trail rest : List AuditRow} {r : KeyRow} {a : AuditRow}
    (h : Told trail r rest) (hdeletes : a.deletes r.keyId r.workspace = false) :
    ∀ b ∈ rest ++ [a], b.deletes r.keyId r.workspace = false := by
  intro b hb
  rcases List.mem_append.mp hb with hold | hnew
  · exact h.kept b hold
  · rw [List.mem_singleton.mp hnew]
    exact hdeletes

omit [Crates] in
/-- A row more that notes no revocation and no deletion of the key. -/
theorem Told.more {trail rest : List AuditRow} {r r' : KeyRow} {a : AuditRow}
    (h : Told trail r rest) (hsame : SameRow r r') (hcreates : a.creates r.keyId = false)
    (hrevokes : a.revokes r.keyId = false) (hdeletes : a.deletes r.keyId r.workspace = false) :
    Told (trail ++ [a]) r' (rest ++ [a]) where
  made := by
    rw [since_append, hsame.keyId, h.made, sinceStep_cons hcreates, hsame.created]
  revokedAt := by
    rw [hsame.revokedAt, hsame.keyId, h.revokedAt, List.find?_append, List.find?_singleton,
      hrevokes, if_neg Bool.false_ne_true, Option.or_none]
  kept := by
    rw [hsame.keyId, hsame.workspace]
    exact h.kept_more hdeletes

omit [Crates] in
/-- A row more that notes a revocation: an earlier one stays, and a first one is this one. -/
theorem Told.revoked {trail rest : List AuditRow} {r : KeyRow} {a : AuditRow}
    (h : Told trail r rest) (hcreates : a.creates r.keyId = false)
    (hrevokes : a.revokes r.keyId = true) (hdeletes : a.deletes r.keyId r.workspace = false) :
    Told (trail ++ [a]) { r with revokedAt := r.revokedAt.or (some a.at') } (rest ++ [a]) where
  made := by
    rw [since_append]
    exact (congrArg (fun rows => sinceStep r.keyId rows a) h.made).trans
      (sinceStep_cons hcreates _ _)
  revokedAt := by
    show r.revokedAt.or (some a.at') = _
    rw [h.revokedAt, List.find?_append, List.find?_singleton, hrevokes, if_pos rfl]
    cases rest.find? fun a => a.revokes r.keyId <;> rfl
  kept := h.kept_more hdeletes

omit [Crates] in
/-- A key's life begins with the row that notes that it was made. -/
theorem Told.begins {r : KeyRow} (hrevoked : r.revokedAt = none) (trail : List AuditRow) :
    Told (trail ++ [r.created]) r [] where
  made := by
    rw [since_append, sinceStep_creates]
    simp [AuditRow.creates, KeyRow.created]
  revokedAt := hrevoked
  kept _ ha := absurd ha List.not_mem_nil

omit [Crates] in
theorem Told.same {trail rest : List AuditRow} {r r' : KeyRow} (h : Told trail r rest)
    (hsame : SameRow r r') : Told trail r' rest where
  made := by rw [hsame.keyId, h.made, hsame.created]
  revokedAt := by rw [hsame.revokedAt, hsame.keyId, h.revokedAt]
  kept := by
    rw [hsame.keyId, hsame.workspace]
    exact h.kept

omit [Crates] in
/-- A key that is gone stays explained by whatever is noted next, unless it is made again. -/
theorem Explained.gone_more (h : c.Explained) {id : String} {a : AuditRow}
    (hcreates : a.creates id = false) (hgone : c.names id = false) {made : AuditRow}
    {rest : List AuditRow} (hsince : since id (c.audit ++ [a]) = made :: rest) :
    ∃ ws, made.workspace = some ws ∧ ∃ b ∈ rest, b.takes id ws = true := by
  rw [since_append] at hsince
  cases hold : since id c.audit with
  | nil =>
    rw [hold, sinceStep_nil hcreates] at hsince
    cases hsince
  | cons made' rest' =>
    rw [hold, sinceStep_cons hcreates] at hsince
    obtain ⟨rfl, rfl⟩ := List.cons.inj hsince
    obtain ⟨ws, hws, b, hb, htakes⟩ := h.gone id hgone made' rest' hold
    exact ⟨ws, hws, b, List.mem_append_left _ hb, htakes⟩

omit [Crates] in
theorem names_eq_false {id : String} : c.names id = false ↔ ∀ r ∈ c.keys, r.keyId ≠ id := by
  unfold names
  simp

omit [Crates] in
theorem names_map {c' : Control} {f : KeyRow → KeyRow} (hf : ∀ r, (f r).keyId = r.keyId)
    (hkeys : c'.keys = c.keys.map f) (id : String) : c'.names id = c.names id := by
  unfold names
  rw [hkeys, List.any_map]
  congr 1
  funext r
  exact congrArg (fun k : String => decide (k = id)) (hf r)

omit [Crates] in
/-- Nothing is noted, and nothing that is noted has changed. -/
theorem Explained.same {c' : Control} (h : c.Explained) {f : KeyRow → KeyRow}
    (hsame : ∀ r, SameRow r (f r)) (hkeys : c'.keys = c.keys.map f)
    (haudit : c'.audit = c.audit) : c'.Explained := by
  constructor
  · intro r' hr'
    rw [hkeys] at hr'
    obtain ⟨r, hr, rfl⟩ := List.mem_map.mp hr'
    obtain ⟨rest, htold⟩ := h.there r hr
    rw [haudit]
    exact ⟨rest, htold.same (hsame r)⟩
  · intro id hid
    rw [names_map (fun r => (hsame r).keyId) hkeys] at hid
    rw [haudit]
    exact h.gone id hid

omit [Crates] in
/-- Every key is there as before, and is explained by one row more. -/
theorem Explained.noted {c' : Control} (h : c.Explained) {f : KeyRow → KeyRow} {a : AuditRow}
    (hcreates : ∀ id, a.creates id = false) (hids : ∀ r, (f r).keyId = r.keyId)
    (hkeys : c'.keys = c.keys.map f) (haudit : c'.audit = c.audit ++ [a])
    (htold : ∀ r rest, Told c.audit r rest → Told (c.audit ++ [a]) (f r) (rest ++ [a])) :
    c'.Explained := by
  constructor
  · intro r' hr'
    rw [hkeys] at hr'
    obtain ⟨r, hr, rfl⟩ := List.mem_map.mp hr'
    obtain ⟨rest, hold⟩ := h.there r hr
    rw [haudit]
    exact ⟨rest ++ [a], htold r rest hold⟩
  · intro id hid made rest hsince
    rw [names_map hids hkeys] at hid
    rw [haudit] at hsince
    exact h.gone_more (hcreates id) hid hsince

omit [Crates] in
/-- A key is made, under an id that no row has. -/
theorem Explained.created {c' : Control} (h : c.Explained) {r : KeyRow}
    (hfresh : c.names r.keyId = false) (hrevoked : r.revokedAt = none)
    (hkeys : c'.keys = c.keys ++ [r]) (haudit : c'.audit = c.audit ++ [r.created]) :
    c'.Explained := by
  have hcreates : ∀ {id}, r.keyId ≠ id → r.created.creates id = false := by
    intro id hne
    simp [AuditRow.creates, KeyRow.created, hne]
  constructor
  · intro r' hr'
    rw [hkeys] at hr'
    rw [haudit]
    rcases List.mem_append.mp hr' with hold | hnew
    · -- the others have other ids, so the row says nothing of them
      obtain ⟨rest, htold⟩ := h.there r' hold
      have hne : r.keyId ≠ r'.keyId := Ne.symm (names_eq_false.mp hfresh r' hold)
      refine ⟨rest ++ [r.created], htold.more (.refl r') (hcreates hne) ?_ ?_⟩
      · simp [AuditRow.revokes, KeyRow.created]
      · simp [AuditRow.deletes, KeyRow.created]
    · obtain rfl := List.mem_singleton.mp hnew
      exact ⟨[], .begins hrevoked c.audit⟩
  · intro id hid made rest hsince
    rw [names_eq_false, hkeys] at hid
    rw [haudit] at hsince
    refine h.gone_more (hcreates ?_) ?_ hsince
    · exact hid r (List.mem_append_right _ (List.mem_singleton_self r))
    · exact names_eq_false.mpr fun r' hr' => hid r' (List.mem_append_left _ hr')

omit [Crates] in
/-- Keys go, and the row that is added takes them. -/
theorem Explained.taken {c' : Control} (h : c.Explained) {stays : KeyRow → Bool} {a : AuditRow}
    (hcreates : ∀ id, a.creates id = false) (hrevokes : ∀ id, a.revokes id = false)
    (hgone : ∀ r, stays r = false → a.takes r.keyId r.workspace = true)
    (hstays : ∀ r, stays r = true → a.deletes r.keyId r.workspace = false)
    (hkeys : c'.keys = c.keys.filter stays) (haudit : c'.audit = c.audit ++ [a]) :
    c'.Explained := by
  constructor
  · intro r hr
    rw [hkeys] at hr
    obtain ⟨hold, hkept⟩ := List.mem_filter.mp hr
    obtain ⟨rest, htold⟩ := h.there r hold
    rw [haudit]
    exact ⟨rest ++ [a], htold.more (.refl r) (hcreates _) (hrevokes _) (hstays r hkept)⟩
  · intro id hid made rest hsince
    rw [haudit] at hsince
    by_cases hold : c.names id = false
    · exact h.gone_more (hcreates id) hold hsince
    · -- it went with this row
      obtain ⟨r, hr, hkeyId⟩ := List.any_eq_true.mp (Bool.of_not_eq_false hold)
      obtain rfl := of_decide_eq_true hkeyId
      obtain ⟨rest', htold⟩ := h.there r hr
      have hwent : stays r = false := by
        rw [Bool.eq_false_iff]
        intro hkept
        rw [names_eq_false, hkeys] at hid
        exact hid r (List.mem_filter.mpr ⟨hr, hkept⟩) rfl
      rw [since_append, htold.made, sinceStep_cons (hcreates _)] at hsince
      obtain ⟨rfl, rfl⟩ := List.cons.inj hsince
      exact ⟨r.workspace, rfl, a, List.mem_append_right _ (List.mem_singleton_self a),
        hgone r hwent⟩

omit [Crates] in
/-- **A command leaves the trail explaining the keys.** -/
theorem Explained.step {c' : Control} (h : c.Explained) (hnoted : Noted c c') : c'.Explained := by
  cases hnoted with
  | same f hsame hkeys haudit => exact h.same hsame hkeys haudit
  | other f hsame hkeys a haction haudit =>
    have hcreates : ∀ id, a.creates id = false := by
      rcases haction with haction | haction <;> simp [AuditRow.creates, haction]
    refine h.noted hcreates (fun r => (hsame r).keyId) hkeys haudit fun r rest htold => ?_
    refine htold.more (hsame r) (hcreates _) ?_ ?_
    · rcases haction with haction | haction <;> simp [AuditRow.revokes, haction]
    · rcases haction with haction | haction <;> simp [AuditRow.deletes, haction]
  | created r hfresh hrevoked hkeys haudit => exact h.created hfresh hrevoked hkeys haudit
  | revoked id a haction hid hkeys haudit =>
    have hcreates : ∀ id, a.creates id = false := by simp [AuditRow.creates, haction]
    have hdeletes : ∀ id ws, a.deletes id ws = false := by simp [AuditRow.deletes, haction]
    refine h.noted hcreates (fun r => ?_) hkeys haudit fun r rest htold => ?_
    · split <;> rfl
    · -- the row is about this key, or about another one
      split
      · rename_i heq
        refine htold.revoked (hcreates _) ?_ (hdeletes _ _)
        simp [AuditRow.revokes, haction, hid, heq]
      · rename_i hne
        refine htold.more (.refl r) (hcreates _) ?_ (hdeletes _ _)
        simp [AuditRow.revokes, hid, Ne.symm hne]
  | taken stays a haction hgone hstays hkeys haudit =>
    refine h.taken (fun id => ?_) (fun id => ?_) hgone hstays hkeys haudit
    · rcases haction with haction | haction | haction <;> simp [AuditRow.creates, haction]
    · rcases haction with haction | haction | haction <;> simp [AuditRow.revokes, haction]

omit [Crates] in
/-- A command only ever adds to the trail. -/
theorem Noted.grows {c' : Control} (h : Noted c c') : c.audit <+: c'.audit := by
  cases h with
  | same f hsame hkeys haudit => rw [haudit]
  | other f hsame hkeys a haction haudit => exact ⟨[a], haudit.symm⟩
  | created r hfresh hrevoked hkeys haudit => exact ⟨[r.created], haudit.symm⟩
  | revoked id a haction hid hkeys haudit => exact ⟨[a], haudit.symm⟩
  | taken stays a haction hgone hstays hkeys haudit => exact ⟨[a], haudit.symm⟩

/-- No row is ever taken out of the trail. -/
theorem trail_grows (es fs : List (Nat × ControlCall)) :
    (reached es).audit <+: (reached (es ++ fs)).audit := by
  rw [reached_append]
  induction fs generalizing es with
  | nil => exact List.prefix_refl _
  | cons e fs ih =>
    have hnext := ih (es ++ [e])
    rw [reached_append] at hnext
    exact (noted_exec (reached es) e).grows.trans hnext

end

end Control

end Passalong
