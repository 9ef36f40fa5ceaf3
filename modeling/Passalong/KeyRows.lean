import Passalong.Control

/-!
# What a call does to the keys (`control/mod.rs`)

1. `Control.Changed`: a call leaves rows of `api_keys` out, changes the others without
   touching what makes them the key's (`KeyRow.Continues`), and adds the row of a key it made
   (`Control.Made`).
2. `Control.Sound`: no id names two keys, every row has its workspace, every time fits its
   column. So every row is shown (`key_row`).
-/

namespace Passalong

/-! ## What a call does to the keys -/

/-- The same key, later: what makes it that key is unchanged, and a revocation stays. -/
structure KeyRow.Continues (r r' : KeyRow) : Prop where
  keyId : r'.keyId = r.keyId
  workspace : r'.workspace = r.workspace
  secretHash : r'.secretHash = r.secretHash
  label : r'.label = r.label
  role : r'.role = r.role
  revokedAt : r.revokedAt.isSome → r'.revokedAt = r.revokedAt

theorem KeyRow.Continues.refl (r : KeyRow) : r.Continues r :=
  ⟨rfl, rfl, rfl, rfl, rfl, fun _ => rfl⟩

theorem KeyRow.Continues.trans {r r' r'' : KeyRow} (h : r.Continues r') (h' : r'.Continues r'') :
    r.Continues r'' where
  keyId := h'.keyId.trans h.keyId
  workspace := h'.workspace.trans h.workspace
  secretHash := h'.secretHash.trans h.secretHash
  label := h'.label.trans h.label
  role := h'.role.trans h.role
  revokedAt hrevoked := by
    have hsame := h.revokedAt hrevoked
    rw [← hsame] at hrevoked
    exact (h'.revokedAt hrevoked).trans hsame

/-- A time as it is stored. -/
def Stored64 (number : Option Int) : Prop := ∀ t ∈ number, 0 ≤ t ∧ t < dbBound

/-- The times of a row fit their columns. -/
structure KeyRow.Fits (r : KeyRow) : Prop where
  expiresAt : Stored64 r.expiresAt
  revokedAt : Stored64 r.revokedAt

namespace Control

theorem stored64_toDb (number : Nat) : 0 ≤ toDb number ∧ toDb number < dbBound := by
  unfold toDb dbBound
  split <;> omega

theorem Stored64.or {a b : Option Int} (ha : Stored64 a) (hb : Stored64 b) :
    Stored64 (a.or b) := by
  cases a with
  | none => exact hb
  | some t => exact ha

theorem fromDb_of_stored64 {number : Option Int} (h : Stored64 number) :
    fromDb number = number.map Int.toNat := by
  cases number with
  | none => rfl
  | some t =>
    show (if 0 ≤ t then some t.toNat else none) = _
    rw [if_pos (h t rfl).1]
    rfl

section
variable [Crates] {c : Control} {e : Nat × ControlCall}

/-- The row of a key that a call has just made, as `createKey` answered. -/
structure Made (c : Control) (e : Nat × ControlCall) (key : ApiKey) (issued : KeyInfo)
    (r : KeyRow) : Prop where
  answer : (c.answer e).1 = .created (.ok (key, issued))
  fresh : c.names key.keyId.text = false
  home : ∃ w ∈ c.workspaces, WorkspaceId.parse w.id = .ok issued.workspace ∧
    (c.exec e).workspaces = c.workspaces
  id : issued.id = key.keyId
  keyId : r.keyId = key.keyId.text
  workspace : r.workspace = issued.workspace.asStr
  secretHash : r.secretHash = key.hash
  label : r.label = issued.label
  role : r.role = issued.role.text
  revokedAt : r.revokedAt = none
  fits : r.Fits

/-- What a call does to the table of keys. -/
structure Changed (c : Control) (e : Nat × ControlCall) (p : KeyRow → Bool)
    (f : KeyRow → KeyRow) (new : List KeyRow) : Prop where
  keys : (c.exec e).keys = (c.keys.filter p).map f ++ new
  continues : ∀ r : KeyRow, r.Continues (f r)
  fits : ∀ r : KeyRow, r.Fits → (f r).Fits
  made : ∀ r ∈ new, ∃ key issued, Made c e key issued r
  single : new.length ≤ 1

/-- A call that leaves the keys alone. -/
theorem Changed.same (h : (c.exec e).keys = c.keys) :
    c.Changed e (fun _ => true) (fun r => r) [] where
  keys := by
    rw [h, List.filter_true, List.append_nil]
    exact (List.map_id' _).symm
  continues := KeyRow.Continues.refl
  fits _ h := h
  made _ h := by cases h
  single := Nat.zero_le _

/-- A call that deletes keys. -/
theorem Changed.filtered {p : KeyRow → Bool} (h : (c.exec e).keys = c.keys.filter p) :
    c.Changed e p (fun r => r) [] where
  keys := by
    rw [h, List.append_nil]
    exact (List.map_id' _).symm
  continues := KeyRow.Continues.refl
  fits _ h := h
  made _ h := by cases h
  single := Nat.zero_le _

/-- A call that changes keys. -/
theorem Changed.mapped {f : KeyRow → KeyRow} (h : (c.exec e).keys = c.keys.map f)
    (hcontinues : ∀ r : KeyRow, r.Continues (f r)) (hfits : ∀ r : KeyRow, r.Fits → (f r).Fits) :
    c.Changed e (fun _ => true) f [] where
  keys := by rw [h, List.filter_true, List.append_nil]
  continues := hcontinues
  fits := hfits
  made _ h := by cases h
  single := Nat.zero_le _

/-- A call that changes the key of an id. -/
theorem Changed.one {id : String} {f : KeyRow → KeyRow}
    (h : (c.exec e).keys = c.keys.map fun k => if k.keyId = id then f k else k)
    (hcontinues : ∀ r : KeyRow, r.Continues (f r)) (hfits : ∀ r : KeyRow, r.Fits → (f r).Fits) :
    c.Changed e (fun _ => true) (fun k => if k.keyId = id then f k else k) [] := by
  refine .mapped h (fun r => ?_) fun r hr => ?_
  · split
    · exact hcontinues r
    · exact .refl r
  · split
    · exact hfits r hr
    · exact hr

omit [Crates] in
/-- A change of one key runs its statement, or is refused. -/
theorem changeKey_keys (c : Control) (now : Nat) (id action : String)
    (statement : List KeyRow → List KeyRow) :
    (c.changeKey now id action statement).2.workspaces = c.workspaces ∧
      (c.changeKey now id action statement).2.keys =
        match c.key id with
        | .ok _ => statement c.keys
        | .error _ => c.keys := by
  unfold changeKey
  cases c.key id with
  | error e => exact ⟨rfl, rfl⟩
  | ok before =>
    dsimp only
    split <;> exact ⟨rfl, rfl⟩

/-- The row `createKey` stores. -/
def createdRow (now : Nat) (found : WorkspaceInfo) (label : String) (role : Role)
    (expiresIn : Option Nat) (key : ApiKey) : KeyRow :=
  ⟨key.keyId.text, found.id.asStr, key.hash, label, role.text, toDb now,
    (expiresIn.map (saturatingAdd now)).map toDb, none, none⟩

/-- The key as `createKey` shows it. -/
def createdInfo (now : Nat) (found : WorkspaceInfo) (label : String) (role : Role)
    (expiresIn : Option Nat) (key : ApiKey) : KeyInfo :=
  ⟨key.keyId, found.id, found.name, label, role, now, expiresIn.map (saturatingAdd now), none, none⟩

theorem createKey_done {workspace : String} {found : WorkspaceInfo} {draws : List ApiKey}
    {key : ApiKey} (now : Nat) (label : String) (role : Role) (expiresIn : Option Nat)
    (hfound : c.workspace workspace = .ok found) (hmint : c.mint draws = some key) :
    c.createKey now workspace label role expiresIn draws =
      (.ok (key, createdInfo now found label role expiresIn key),
        { c with keys := c.keys ++ [createdRow now found label role expiresIn key] }.note now
          "key.create" found.id.asStr key.keyId.text label) := by
  unfold createKey
  simp only [hfound, hmint]
  rfl

omit [Crates] in
/-- A workspace found by its name is one of the table's. -/
theorem home_of_workspace {name : String} {found : WorkspaceInfo}
    (h : c.workspace name = .ok found) :
    ∃ w ∈ c.workspaces, WorkspaceId.parse w.id = .ok found.id := by
  unfold Control.workspace at h
  cases hrow : c.workspaces.find? fun w => w.name = some name with
  | none =>
    rw [hrow] at h
    cases h
  | some w =>
    rw [hrow] at h
    refine ⟨w, List.mem_of_find?_eq_some hrow, ?_⟩
    dsimp only [workspaceFrom] at h
    cases hparse : WorkspaceId.parse w.id with
    | error e =>
      rw [hparse] at h
      cases h
    | ok id =>
      rw [hparse] at h
      cases h
      rfl

theorem made_createKey {workspace : String} {found : WorkspaceInfo} {draws : List ApiKey}
    {key : ApiKey} (now : Nat) (label : String) (role : Role) (expiresIn : Option Nat)
    (hfound : c.workspace workspace = .ok found) (hmint : c.mint draws = some key) :
    c.Made (now, .createKey workspace label role expiresIn draws) key
      (createdInfo now found label role expiresIn key)
      (createdRow now found label role expiresIn key) where
  answer := by
    show ControlAnswer.created (c.createKey now workspace label role expiresIn draws).1 = _
    rw [createKey_done now label role expiresIn hfound hmint]
  fresh := by simpa using List.find?_some hmint
  home := by
    obtain ⟨w, hw, hid⟩ := home_of_workspace hfound
    refine ⟨w, hw, hid, ?_⟩
    show (c.createKey now workspace label role expiresIn draws).2.workspaces = _
    rw [createKey_done now label role expiresIn hfound hmint]
    rfl
  id := rfl
  keyId := rfl
  workspace := rfl
  secretHash := rfl
  label := rfl
  role := rfl
  revokedAt := rfl
  fits := by
    refine ⟨fun t ht => ?_, fun t ht => by cases ht⟩
    obtain ⟨secs, -, rfl⟩ := Option.map_eq_some_iff.mp ht
    exact stored64_toDb secs

/-- Authenticating changes no more than a key's last use. -/
theorem authenticate_tables (c : Control) (now : Nat) (token : String) (noted : Bool) :
    (c.authenticate now token noted).2.workspaces = c.workspaces ∧
      ((c.authenticate now token noted).2.keys = c.keys ∨ ∃ id,
        (c.authenticate now token noted).2.keys = c.keys.map fun k =>
          if k.keyId = id then { k with lastUsedAt := some (toDb now) } else k) := by
  unfold authenticate
  cases ApiKey.parse token with
  | none => exact ⟨rfl, .inl rfl⟩
  | some presented =>
    dsimp only
    generalize Option.filter _ _ = found
    cases found with
    | none => exact ⟨rfl, .inl rfl⟩
    | some row =>
      dsimp only
      by_cases hrevoked : row.revokedAt.isSome = true
      · rw [if_pos hrevoked]
        exact ⟨rfl, .inl rfl⟩
      · rw [if_neg hrevoked]
        by_cases hexpired : (fromDb row.expiresAt).any (· ≤ now) = true
        · rw [if_pos hexpired]
          exact ⟨rfl, .inl rfl⟩
        · rw [if_neg hexpired]
          generalize ((fromDb row.lastUsedAt).all _ && noted) = writes
          cases WorkspaceId.parse row.workspace with
          | error e =>
            cases writes with
            | false => exact ⟨rfl, .inl rfl⟩
            | true => exact ⟨rfl, .inr ⟨_, rfl⟩⟩
          | ok workspace =>
            cases writes with
            | false => exact ⟨rfl, .inl rfl⟩
            | true => exact ⟨rfl, .inr ⟨_, rfl⟩⟩

omit [Crates] in
theorem pruneKeys_tables (c : Control) (now olderThan : Nat) :
    (c.pruneKeys now olderThan).2.workspaces = c.workspaces ∧
      (c.pruneKeys now olderThan).2.keys =
        c.keys.filter fun k => !k.prunedAt (toDb (now - olderThan)) := by
  unfold pruneKeys
  dsimp only
  split <;> exact ⟨rfl, rfl⟩

/-- A workspace takes its keys with it. -/
theorem changed_deleteWorkspace (c : Control) (now : Nat) (name : String) :
    ∃ p f new, c.Changed (now, .deleteWorkspace name) p f new := by
  cases hfound : c.workspace name with
  | error e =>
    refine ⟨_, _, _, Changed.same ?_⟩
    show (c.deleteWorkspace now name).2.keys = c.keys
    unfold deleteWorkspace
    rw [hfound]
  | ok found =>
    refine ⟨fun k : KeyRow => k.workspace ≠ found.id.asStr, _, _, Changed.filtered ?_⟩
    show (c.deleteWorkspace now name).2.keys = _
    unfold deleteWorkspace
    rw [hfound]
    rfl

/-- A key is added if its workspace is found and an id is drawn that is new. -/
theorem changed_createKey (c : Control) (now : Nat) (workspace label : String) (role : Role)
    (expiresIn : Option Nat) (draws : List ApiKey) :
    ∃ p f new, c.Changed (now, .createKey workspace label role expiresIn draws) p f new := by
  cases hfound : c.workspace workspace with
  | error e =>
    refine ⟨_, _, _, Changed.same ?_⟩
    show (c.createKey now workspace label role expiresIn draws).2.keys = c.keys
    unfold createKey
    rw [hfound]
  | ok found =>
    cases hmint : c.mint draws with
    | none =>
      refine ⟨_, _, _, Changed.same ?_⟩
      show (c.createKey now workspace label role expiresIn draws).2.keys = c.keys
      unfold createKey
      simp only [hfound, hmint]
    | some key =>
      have hdone := createKey_done now label role expiresIn hfound hmint
      refine ⟨fun _ => true, fun r => r, [createdRow now found label role expiresIn key],
        ⟨?_, .refl, fun _ h => h, fun r hr => ?_, Nat.le_refl 1⟩⟩
      · show (c.createKey now workspace label role expiresIn draws).2.keys = _
        rw [hdone, List.filter_true, List.map_id']
        rfl
      · rw [List.mem_singleton] at hr
        exact ⟨key, _, hr ▸ made_createKey now label role expiresIn hfound hmint⟩

/-- A call that changes one key is refused, or has done what its statement does. -/
theorem changed_changeKey {now : Nat} {id action : String}
    {statement : List KeyRow → List KeyRow} {p : KeyRow → Bool} {f : KeyRow → KeyRow}
    (hexec : (c.exec e).keys = (c.changeKey now id action statement).2.keys)
    (hdone : (c.exec e).keys = statement c.keys → c.Changed e p f []) :
    ∃ p f new, c.Changed e p f new := by
  obtain ⟨-, hkeys⟩ := c.changeKey_keys now id action statement
  rw [← hexec] at hkeys
  cases hkey : c.key id with
  | error refusal =>
    rw [hkey] at hkeys
    exact ⟨_, _, _, Changed.same hkeys⟩
  | ok before =>
    rw [hkey] at hkeys
    exact ⟨_, _, _, hdone hkeys⟩

/-- **What a call does to the keys.** -/
theorem changed (c : Control) (e : Nat × ControlCall) : ∃ p f new, c.Changed e p f new := by
  obtain ⟨now, call⟩ := e
  cases call with
  | createWorkspace name quotaBytes fresh =>
    refine ⟨_, _, _, Changed.same ?_⟩
    show (c.createWorkspace now name quotaBytes fresh).2.keys = c.keys
    unfold createWorkspace
    repeat' split
    all_goals rfl
  | deleteWorkspace name => exact changed_deleteWorkspace c now name
  | createKey workspace label role expiresIn draws =>
    exact changed_createKey c now workspace label role expiresIn draws
  | extendKey id expiresIn =>
    refine changed_changeKey rfl fun hkeys => Changed.one hkeys ?_ ?_
    · exact fun r => ⟨rfl, rfl, rfl, rfl, rfl, fun _ => rfl⟩
    · -- the new time is one that the column holds
      refine fun r hr => ⟨fun t ht => ?_, hr.revokedAt⟩
      obtain ⟨secs, -, rfl⟩ := Option.map_eq_some_iff.mp ht
      exact stored64_toDb _
  | revokeKey id =>
    refine changed_changeKey rfl fun hkeys => Changed.one hkeys ?_ ?_
    · -- a key that is revoked keeps the time of that
      refine fun r => ⟨rfl, rfl, rfl, rfl, rfl, fun hrevoked => ?_⟩
      obtain ⟨t, ht⟩ := Option.isSome_iff_exists.mp hrevoked
      show r.revokedAt.or _ = r.revokedAt
      rw [ht]
      rfl
    · refine fun r hr => ⟨hr.expiresAt, Stored64.or hr.revokedAt fun t ht => ?_⟩
      cases ht
      exact stored64_toDb now
  | deleteKey id => exact changed_changeKey rfl Changed.filtered
  | pruneKeys olderThan =>
    exact ⟨_, _, _, Changed.filtered (pruneKeys_tables c now olderThan).2⟩
  | authenticate token noted =>
    rcases (authenticate_tables c now token noted).2 with hsame | ⟨id, hnoted⟩
    · exact ⟨_, _, _, Changed.same hsame⟩
    · refine ⟨_, _, _, Changed.one hnoted ?_ ?_⟩
      · exact fun r => ⟨rfl, rfl, rfl, rfl, rfl, fun _ => rfl⟩
      · exact fun r hr => ⟨hr.expiresAt, hr.revokedAt⟩

/-- A row after a call is one that was there, or the row of a key the call made. -/
theorem row_exec {r' : KeyRow} (h : r' ∈ (c.exec e).keys) :
    (∃ r ∈ c.keys, r.Continues r') ∨ ∃ key issued, c.Made e key issued r' := by
  obtain ⟨p, f, new, hchanged⟩ := changed c e
  rw [hchanged.keys] at h
  rcases List.mem_append.mp h with hold | hnew
  · obtain ⟨r, hr, rfl⟩ := List.mem_map.mp hold
    exact .inl ⟨r, List.mem_of_mem_filter hr, hchanged.continues r⟩
  · exact .inr (hchanged.made r' hnew)

/-! ## What always holds -/

/-- The table's constraints, and what the commands store. -/
structure Sound (c : Control) : Prop where
  /-- An id names one key. -/
  ids : (c.keys.map KeyRow.keyId).Nodup
  /-- `REFERENCES workspaces(id) ON DELETE CASCADE`. -/
  homes : ∀ r ∈ c.keys, ∃ w ∈ c.workspaces, w.id = r.workspace
  texts : ∀ w ∈ c.workspaces, ∃ id : WorkspaceId, w.id = id.asStr
  fits : ∀ r ∈ c.keys, r.Fits

omit [Crates] in
theorem sound_empty : Sound .empty where
  ids := List.nodup_nil
  homes _ h := by cases h
  texts _ h := by cases h
  fits _ h := by cases h

/-- No call makes two rows of one id. -/
theorem ids_exec (h : c.Sound) : ((c.exec e).keys.map KeyRow.keyId).Nodup := by
  obtain ⟨p, f, new, hchanged⟩ := changed c e
  have hkept : ((c.keys.filter p).map f).map KeyRow.keyId = (c.keys.filter p).map KeyRow.keyId := by
    rw [List.map_map]
    exact List.map_congr_left fun r _ => (hchanged.continues r).keyId
  have hold : ((c.keys.filter p).map KeyRow.keyId).Nodup :=
    h.ids.sublist ((List.filter_sublist).map KeyRow.keyId)
  rw [hchanged.keys, List.map_append, hkept]
  cases new with
  | nil => rwa [List.map_nil, List.append_nil]
  | cons r rest =>
    have hrest : rest = [] := List.length_eq_zero_iff.mp (by simpa using hchanged.single)
    obtain ⟨key, issued, hmade⟩ := hchanged.made r List.mem_cons_self
    subst hrest
    rw [List.map_singleton]
    refine List.nodup_append.mpr ⟨hold, List.nodup_singleton _, ?_⟩
    intro a ha b hb hab
    obtain ⟨r0, hr0, rfl⟩ := List.mem_map.mp ha
    rw [List.mem_singleton] at hb
    have hnamed : c.names key.keyId.text = true := by
      refine List.any_eq_true.mpr ⟨r0, List.mem_of_mem_filter hr0, ?_⟩
      rw [hab, hb, hmade.keyId]
      exact decide_eq_true rfl
    rw [hmade.fresh] at hnamed
    cases hnamed

/-- What a call does to the workspaces: a new one, or one less, with its keys. -/
theorem workspaces_exec (c : Control) (e : Nat × ControlCall) :
    (c.exec e).workspaces = c.workspaces ∨
      (∃ (id : WorkspaceId) (w : HomeRow), w.id = id.asStr ∧
        (c.exec e).workspaces = c.workspaces ++ [w]) ∨
      ∃ id : WorkspaceId, (c.exec e).workspaces = c.workspaces.filter (fun w => w.id ≠ id.asStr) ∧
        (c.exec e).keys = c.keys.filter fun k => k.workspace ≠ id.asStr := by
  obtain ⟨now, call⟩ := e
  cases call with
  | createWorkspace name quotaBytes fresh =>
    -- refused for its name, for a name taken, for an id taken; or a row more
    have hcreate : (c.createWorkspace now name quotaBytes fresh).2.workspaces = c.workspaces ∨
        ∃ w : HomeRow, w.id = fresh.asStr ∧
          (c.createWorkspace now name quotaBytes fresh).2.workspaces = c.workspaces ++ [w] := by
      unfold createWorkspace
      by_cases hname : validName name = false
      · rw [if_pos hname]
        exact .inl rfl
      · rw [if_neg hname]
        by_cases htaken : (c.workspaces.any fun w => w.name = some name) = true
        · rw [if_pos htaken]
          exact .inl rfl
        · rw [if_neg htaken]
          by_cases hknown : (c.workspaces.any fun w => w.id = fresh.asStr) = true
          · rw [if_pos hknown]
            exact .inl rfl
          · rw [if_neg hknown]
            exact .inr ⟨⟨fresh.asStr, some name, quotaBytes.map toDb, toDb now⟩, rfl, rfl⟩
    rcases hcreate with hsame | ⟨w, hw, hnew⟩
    · exact .inl hsame
    · exact .inr (.inl ⟨fresh, w, hw, hnew⟩)
  | deleteWorkspace name =>
    -- the row and, with it, every key of the workspace
    cases hfound : c.workspace name with
    | error e =>
      refine .inl ?_
      show (c.deleteWorkspace now name).2.workspaces = _
      unfold deleteWorkspace
      rw [hfound]
    | ok found =>
      refine .inr (.inr ⟨found.id, ?_⟩)
      show (c.deleteWorkspace now name).2.workspaces = _ ∧ (c.deleteWorkspace now name).2.keys = _
      unfold deleteWorkspace
      rw [hfound]
      exact ⟨rfl, rfl⟩
  | createKey workspace label role expiresIn draws =>
    -- the calls on keys leave the workspaces alone
    refine .inl ?_
    show (c.createKey now workspace label role expiresIn draws).2.workspaces = _
    cases hfound : c.workspace workspace with
    | error e =>
      unfold createKey
      rw [hfound]
    | ok found =>
      cases hmint : c.mint draws with
      | none =>
        unfold createKey
        simp only [hfound, hmint]
      | some key =>
        rw [createKey_done now label role expiresIn hfound hmint]
        rfl
  | extendKey id expiresIn => exact .inl (c.changeKey_keys now id _ _).1
  | revokeKey id => exact .inl (c.changeKey_keys now id _ _).1
  | deleteKey id => exact .inl (c.changeKey_keys now id _ _).1
  | pruneKeys olderThan => exact .inl (pruneKeys_tables c now olderThan).1
  | authenticate token noted => exact .inl (authenticate_tables c now token noted).1

/-- **Every call keeps the tables sound.** -/
theorem Sound.exec (h : c.Sound) (e : Nat × ControlCall) : (c.exec e).Sound where
  ids := ids_exec h
  homes r hr := by
    -- the workspace of a row, before the call
    obtain ⟨w, hw, hid⟩ : ∃ w ∈ c.workspaces, w.id = r.workspace := by
      rcases row_exec hr with ⟨r0, hr0, hcontinues⟩ | ⟨key, issued, hmade⟩
      · rw [hcontinues.workspace]
        exact h.homes r0 hr0
      · obtain ⟨w, hw, hparse, -⟩ := hmade.home
        obtain ⟨id, hid⟩ := h.texts w hw
        rw [hid, WorkspaceId.parse_asStr] at hparse
        cases hparse
        exact ⟨w, hw, hid.trans hmade.workspace.symm⟩
    rcases workspaces_exec c e with hsame | ⟨id, w', -, hnew⟩ | ⟨id, hless, hkeys⟩
    · rw [hsame]
      exact ⟨w, hw, hid⟩
    · rw [hnew]
      exact ⟨w, List.mem_append_left _ hw, hid⟩
    · rw [hkeys] at hr
      rw [hless]
      have hne : r.workspace ≠ id.asStr := by simpa using (List.mem_filter.mp hr).2
      refine ⟨w, List.mem_filter.mpr ⟨hw, ?_⟩, hid⟩
      rw [hid]
      exact decide_eq_true hne
  texts w hw := by
    rcases workspaces_exec c e with hsame | ⟨id, w', hid, hnew⟩ | ⟨id, hless, -⟩
    · rw [hsame] at hw
      exact h.texts w hw
    · rw [hnew] at hw
      rcases List.mem_append.mp hw with hold | hw'
      · exact h.texts w hold
      · rw [List.mem_singleton] at hw'
        subst hw'
        exact ⟨id, hid⟩
    · rw [hless] at hw
      exact h.texts w (List.mem_of_mem_filter hw)
  fits r hr := by
    obtain ⟨p, f, new, hchanged⟩ := changed c e
    rw [hchanged.keys] at hr
    rcases List.mem_append.mp hr with hold | hnew
    · obtain ⟨r0, hr0, rfl⟩ := List.mem_map.mp hold
      exact hchanged.fits r0 (h.fits r0 (List.mem_of_mem_filter hr0))
    · obtain ⟨key, issued, hmade⟩ := hchanged.made r hnew
      exact hmade.fits

omit [Crates] in
/-- An id names one row. -/
theorem Sound.eq_of_keyId (h : c.Sound) {r r' : KeyRow} (hr : r ∈ c.keys) (hr' : r' ∈ c.keys)
    (hid : r.keyId = r'.keyId) : r = r' :=
  List.inj_on_of_nodup_map h.ids hr hr' hid

omit [Crates] in
theorem Sound.find_row (h : c.Sound) {r : KeyRow} {id : String} (hr : r ∈ c.keys)
    (hid : r.keyId = id) : (c.keys.find? fun k => k.keyId = id) = some r := by
  obtain ⟨r', hr'⟩ : ∃ r', (c.keys.find? fun k => k.keyId = id) = some r' :=
    Option.isSome_iff_exists.mp (List.find?_isSome.mpr ⟨r, hr, decide_eq_true hid⟩)
  have hid' : r'.keyId = id := by simpa using List.find?_some hr'
  rw [hr', h.eq_of_keyId (List.mem_of_find?_eq_some hr') hr (hid'.trans hid.symm)]

/-- What is shown of a row. -/
structure Shows (info : KeyInfo) (r : KeyRow) : Prop where
  id : info.id.text = r.keyId
  workspace : r.workspace = info.workspace.asStr
  label : info.label = r.label
  role : info.role = roleFrom r.role
  expiresAt : info.expiresAt = fromDb r.expiresAt
  revokedAt : info.revokedAt = fromDb r.revokedAt

omit [Crates] in
/-- **Every row is shown.** -/
theorem Sound.key_row (h : c.Sound) {r : KeyRow} {id : String} (hr : r ∈ c.keys)
    (hid : r.keyId = id) : ∃ info, c.key id = .ok info ∧ Shows info r := by
  obtain ⟨w, hw, hwid⟩ := h.homes r hr
  obtain ⟨w', hw'⟩ : ∃ w', (c.workspaces.find? fun w => w.id = r.workspace) = some w' :=
    Option.isSome_iff_exists.mp (List.find?_isSome.mpr ⟨w, hw, decide_eq_true hwid⟩)
  have hwid' : w'.id = r.workspace := by simpa using List.find?_some hw'
  obtain ⟨workspace, htext⟩ := h.texts w' (List.mem_of_find?_eq_some hw')
  rw [hwid'] at htext
  unfold key
  rw [h.find_row hr hid]
  dsimp only
  rw [hw']
  dsimp only [keyFrom]
  rw [htext, WorkspaceId.parse_asStr]
  exact ⟨_, rfl, rfl, htext, rfl, rfl, rfl, rfl⟩

end

end Control

end Passalong
