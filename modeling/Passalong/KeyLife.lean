import Passalong.Lib.Runs
import Passalong.KeyRows

/-!
# The life of a key (`control/mod.rs`)

A key opens its workspace from the call that makes it until it expires, is revoked, or is
deleted: by name, with its workspace, or by a prune. Whether it does is decided in three
places, by `authenticate`, by `KeyInfo.state`, and by the condition of the prune, and they
agree. `Control.LifeCycle` says so of every call of a run.

No two keys have the same secret, and no two secrets of a run the same hash; both are about
what is drawn and hashed, and are hypotheses (`life_cycle`). Times are not: the statements
hold whatever the clock says.

1. Every row is the row of a key that was made and is there ever since (`origin`), and a row
   that is there ever since is the one that was made (`follow`).
2. So the right secret is answered by the state of its row, as it is shown (`answers`).
3. A call that ends a key leaves no row of it that is not revoked (`Ends.revoked`), and a
   revocation stays; a key made later has another secret (`ended`).
4. The prune's condition, in SQL, is the same on the stored row as on what is shown of it
   (`prunedAt_eq`).
-/

namespace Passalong

open Lib

/-! ## What is shown of a key -/

namespace KeyInfo

/-- What a token's holder is taken for. -/
def caller (issued info : KeyInfo) : Authenticated :=
  ⟨issued.workspace, ⟨issued.id, issued.role⟩, info.expiresAt, issued.label⟩

/-- The key was revoked by then, or was not revoked and expired by then. -/
def doneBy (info : KeyInfo) (before : Nat) : Bool :=
  match info.revokedAt with
  | some revoked => revoked ≤ before
  | none => info.expiresAt.any (· ≤ before)

/-- What is done by a time before now is not active now. -/
theorem not_active {info : KeyInfo} {before now : Nat} (hbefore : before ≤ now)
    (h : info.doneBy before = true) : info.state now ≠ .active := by
  unfold doneBy at h
  unfold state
  cases hrevoked : info.revokedAt with
  | some revoked => exact KeyState.noConfusion
  | none =>
    rw [hrevoked] at h
    rw [Option.isSome_none, if_neg Bool.false_ne_true]
    cases hexpires : info.expiresAt with
    | none =>
      rw [hexpires] at h
      cases h
    | some expires =>
      rw [hexpires] at h
      have hle : expires ≤ before := by simpa using h
      rw [if_pos (by simpa using hle.trans hbefore)]
      exact KeyState.noConfusion

end KeyInfo

namespace Control

section
variable [Crates] {c : Control} {e : Nat × ControlCall}

/-! ## The key of a row, and the row of a key -/

/-- The control database after the calls so far. -/
def reached (es : List (Nat × ControlCall)) : Control := Runs.run exec .empty es

theorem reached_append (es fs : List (Nat × ControlCall)) :
    reached (es ++ fs) = Runs.run exec (reached es) fs := Runs.run_append exec .empty es fs

theorem sound_reached (es : List (Nat × ControlCall)) : (reached es).Sound :=
  Runs.always exec (fun _ e h => h.exec e) sound_empty es

/-- An id names a key now and after each of the calls. -/
def Kept (id : String) (c : Control) (es : List (Nat × ControlCall)) : Prop :=
  Runs.Along exec (fun c _ => c.names id = true) c es ∧ (Runs.run exec c es).names id = true

omit [Crates] in
theorem names_of_row {r : KeyRow} (h : r ∈ c.keys) : c.names r.keyId = true :=
  List.any_eq_true.mpr ⟨r, h, decide_eq_true rfl⟩

/-- A row whose id is never without a key continues. -/
theorem follow_exec (hs : c.Sound) {r : KeyRow} (hr : r ∈ c.keys)
    (hnamed : (c.exec e).names r.keyId = true) :
    ∃ r' ∈ (c.exec e).keys, r.Continues r' := by
  obtain ⟨r', hr', hid⟩ := List.any_eq_true.mp hnamed
  rw [decide_eq_true_eq] at hid
  rcases row_exec hr' with ⟨r0, hr0, hcontinues⟩ | ⟨key, issued, hmade⟩
  · rw [hs.eq_of_keyId hr hr0 (hid.symm.trans hcontinues.keyId)]
    exact ⟨r', hr', hcontinues⟩
  · have hfresh := hmade.fresh
    rw [← hmade.keyId, hid, names_of_row hr] at hfresh
    cases hfresh

/-- **A row that is there ever since continues the one there was.** -/
theorem follow (hs : c.Sound) {r : KeyRow} (hr : r ∈ c.keys) {es : List (Nat × ControlCall)}
    (hkept : Kept r.keyId c es) : ∃ r' ∈ (Runs.run exec c es).keys, r.Continues r' := by
  induction es generalizing c r with
  | nil => exact ⟨r, hr, .refl r⟩
  | cons e es ih =>
    have hnamed : (c.exec e).names r.keyId = true := by
      cases es with
      | nil => exact hkept.2
      | cons e' es => exact hkept.1.2.1
    obtain ⟨r', hr', hcontinues⟩ := follow_exec hs hr hnamed
    have hkept' : Kept r'.keyId (c.exec e) es := by
      rw [hcontinues.keyId]
      exact ⟨hkept.1.2, hkept.2⟩
    obtain ⟨r'', hr'', hcontinues'⟩ := ih (hs.exec e) hr' hkept'
    exact ⟨r'', hr'', hcontinues.trans hcontinues'⟩

/-- A key that a call of the run returned, whose row is there ever since: as it was shown
when it was made, and as it is shown now. -/
structure Origin (es pre : List (Nat × ControlCall)) (e : Nat × ControlCall)
    (post : List (Nat × ControlCall)) (key : ApiKey) (issued : KeyInfo) : Prop where
  split : es = pre ++ e :: post
  created : ((reached pre).answer e).1 = .created (.ok (key, issued))
  kept : Kept key.keyId.text ((reached pre).exec e) post

/-- The row of a key that was made. -/
theorem made_of_created {key : ApiKey} {issued : KeyInfo}
    (h : (c.answer e).1 = .created (.ok (key, issued))) :
    ∃ r ∈ (c.exec e).keys, c.Made e key issued r := by
  obtain ⟨now, call⟩ := e
  cases call with
  | createKey workspace label role expiresIn draws =>
    have hanswer : (c.createKey now workspace label role expiresIn draws).1 =
        .ok (key, issued) := ControlAnswer.created.inj h
    cases hfound : c.workspace workspace with
    | error e =>
      unfold createKey at hanswer
      rw [hfound] at hanswer
      cases hanswer
    | ok found =>
      cases hmint : c.mint draws with
      | none =>
        unfold createKey at hanswer
        simp only [hfound, hmint] at hanswer
        cases hanswer
      | some key' =>
        have hdone := createKey_done now label role expiresIn hfound hmint
        rw [hdone] at hanswer
        cases hanswer
        refine ⟨createdRow now found label role expiresIn key, ?_,
          made_createKey now label role expiresIn hfound hmint⟩
        show _ ∈ (c.createKey now workspace label role expiresIn draws).2.keys
        rw [hdone]
        exact List.mem_append_right _ List.mem_cons_self
  | createWorkspace name quotaBytes fresh => cases h
  | deleteWorkspace name => cases h
  | extendKey id expiresIn => cases h
  | revokeKey id => cases h
  | deleteKey id => cases h
  | pruneKeys olderThan => cases h
  | authenticate token noted => cases h

/-- What a row tells of the key it was made for. -/
structure Holds (r : KeyRow) (key : ApiKey) (issued : KeyInfo) : Prop where
  keyId : r.keyId = key.keyId.text
  id : issued.id = key.keyId
  workspace : r.workspace = issued.workspace.asStr
  secretHash : r.secretHash = key.hash
  label : r.label = issued.label
  role : r.role = issued.role.text

theorem Made.holds {key : ApiKey} {issued : KeyInfo} {r : KeyRow} (h : c.Made e key issued r) :
    Holds r key issued :=
  ⟨h.keyId, h.id, h.workspace, h.secretHash, h.label, h.role⟩

theorem Holds.continues {key : ApiKey} {issued : KeyInfo} {r r' : KeyRow}
    (h : Holds r key issued) (hcontinues : r.Continues r') : Holds r' key issued where
  keyId := hcontinues.keyId.trans h.keyId
  id := h.id
  workspace := hcontinues.workspace.trans h.workspace
  secretHash := hcontinues.secretHash.trans h.secretHash
  label := hcontinues.label.trans h.label
  role := hcontinues.role.trans h.role

/-- **Every row is that of a key that was made and is there ever since.** -/
theorem origin (es : List (Nat × ControlCall)) {r : KeyRow} (hr : r ∈ (reached es).keys) :
    ∃ pre e post key issued, Origin es pre e post key issued ∧ Holds r key issued := by
  induction es using List.reverseRecOn generalizing r with
  | nil => cases hr
  | append_singleton es e ih =>
    rw [reached_append] at hr
    rcases row_exec hr with ⟨r0, hr0, hcontinues⟩ | ⟨key, issued, hmade⟩
    · obtain ⟨pre, e0, post, key, issued, horigin, hholds⟩ := ih hr0
      have hholds' := hholds.continues hcontinues
      refine ⟨pre, e0, post ++ [e], key, issued, ⟨?_, horigin.created, ?_, ?_⟩, hholds'⟩
      · rw [horigin.split, List.append_assoc, List.cons_append]
      · exact (Runs.along_append exec).mpr ⟨horigin.kept.1, horigin.kept.2, trivial⟩
      · have hthere : Runs.run exec ((reached pre).exec e0) post = reached es := by
          rw [horigin.split, reached_append]
          rfl
        rw [Runs.run_append, hthere, ← hholds'.keyId]
        exact names_of_row hr
    · refine ⟨es, e, [], key, issued, ⟨rfl, hmade.answer, trivial, ?_⟩, hmade.holds⟩
      rw [← hmade.keyId]
      exact names_of_row hr

/-- The row of a key that is there ever since it was made. -/
theorem Origin.row {es pre post : List (Nat × ControlCall)} {key : ApiKey} {issued : KeyInfo}
    (h : Origin es pre e post key issued) :
    ∃ r ∈ (reached es).keys, Holds r key issued := by
  obtain ⟨r, hr, hmade⟩ := made_of_created h.created
  have hkept := h.kept
  rw [← hmade.keyId] at hkept
  obtain ⟨r', hr', hcontinues⟩ := follow ((sound_reached pre).exec e) hr hkept
  refine ⟨r', ?_, hmade.holds.continues hcontinues⟩
  rw [h.split, reached_append]
  exact hr'

/-! ## What `authenticate` answers -/

omit [Crates] in
/-- A row is revoked where it is shown so. -/
theorem Shows.state_revoked {info : KeyInfo} {r : KeyRow} (h : Shows info r) (hfits : r.Fits)
    (now : Nat) : info.state now = .revoked ↔ r.revokedAt.isSome = true := by
  have hrevoked : info.revokedAt.isSome = r.revokedAt.isSome := by
    rw [h.revokedAt, fromDb_of_stored64 hfits.revokedAt, Option.isSome_map]
  unfold KeyInfo.state
  rw [hrevoked]
  constructor
  · intro hstate
    by_contra hnot
    rw [if_neg hnot] at hstate
    split at hstate <;> cases hstate
  · intro hsome
    rw [if_pos hsome]

/-- The answer to a token, by the state of its key. -/
def answerBy (state : KeyState) (auth : Authenticated) : Except ApiError Authenticated :=
  match state with
  | .active => .ok auth
  | .revoked => .error .keyRevoked
  | .expired => .error .keyExpired

/-- **The right secret is answered by the state of its key.** -/
theorem authenticate_row (hs : c.Sound) {key : ApiKey} {r : KeyRow} {info : KeyInfo}
    (hr : r ∈ c.keys) (hid : r.keyId = key.keyId.text) (hhash : r.secretHash = key.hash)
    (hshows : Shows info r) (now : Nat) (noted : Bool) :
    (c.authenticate now key.reveal noted).1 =
      answerBy (info.state now)
        ⟨info.workspace, ⟨key.keyId, info.role⟩, info.expiresAt, info.label⟩ := by
  have hparse : ApiKey.parse key.reveal = some key := ApiKey.parse_eq_some.mpr rfl
  have hfits := hs.fits r hr
  unfold authenticate
  rw [hparse]
  dsimp only
  rw [hs.find_row hr hid, Option.map_some, Option.getD_some, hhash, Option.filter_some,
    if_pos (decide_eq_true rfl)]
  dsimp only
  by_cases hrevoked : r.revokedAt.isSome = true
  · rw [if_pos hrevoked, (hshows.state_revoked hfits now).mpr hrevoked]
    rfl
  · rw [if_neg hrevoked]
    have hunrevoked : info.revokedAt.isSome = false := by
      rw [hshows.revokedAt, fromDb_of_stored64 hfits.revokedAt, Option.isSome_map]
      exact Bool.eq_false_iff.mpr hrevoked
    by_cases hexpired : (fromDb r.expiresAt).any (· ≤ now) = true
    · have hstate : info.state now = .expired := by
        unfold KeyInfo.state
        rw [hunrevoked, hshows.expiresAt, if_neg Bool.false_ne_true, if_pos hexpired]
      rw [if_pos hexpired, hstate]
      rfl
    · have hstate : info.state now = .active := by
        unfold KeyInfo.state
        rw [hunrevoked, hshows.expiresAt, if_neg Bool.false_ne_true, if_neg hexpired]
      rw [if_neg hexpired, hstate, hshows.workspace, WorkspaceId.parse_asStr, hshows.role,
        hshows.expiresAt, hshows.label]
      rfl

/-- A token that is no row's is not told more. -/
theorem authenticate_none {token : String}
    (h : ∀ key, ApiKey.parse token = some key → ∀ r ∈ c.keys, r.keyId = key.keyId.text →
      r.secretHash ≠ key.hash) (now : Nat) (noted : Bool) :
    (c.authenticate now token noted).1 = .error .unauthenticated := by
  unfold authenticate
  cases hparse : ApiKey.parse token with
  | none => rfl
  | some key =>
    dsimp only
    cases hfind : c.keys.find? fun k => k.keyId = key.keyId.text with
    | none => rfl
    | some r =>
      have hid : r.keyId = key.keyId.text := by simpa using List.find?_some hfind
      have hne := h key hparse r (List.mem_of_find?_eq_some hfind) hid
      rw [Option.map_some, Option.getD_some, Option.filter_some,
        if_neg (by rw [decide_eq_true_eq]; exact hne)]

/-- The token is that of a key that a call of the run returned, as `issued`, and whose row is
there ever since, and is shown as `info` now. -/
def Opens (es : List (Nat × ControlCall)) (token : String) (issued info : KeyInfo) : Prop :=
  ∃ pre e post key, Origin es pre e post key issued ∧ token = key.reveal ∧
    (reached es).key key.keyId.text = .ok info

theorem Opens.answer {es : List (Nat × ControlCall)} {token : String} {issued info : KeyInfo}
    (h : Opens es token issued info) (now : Nat) (noted : Bool) :
    ((reached es).authenticate now token noted).1 =
      answerBy (info.state now) (issued.caller info) := by
  obtain ⟨pre, e, post, key, horigin, rfl, hkey⟩ := h
  obtain ⟨r, hr, hholds⟩ := horigin.row
  obtain ⟨info', hkey', hshows⟩ := (sound_reached es).key_row hr hholds.keyId
  rw [hkey] at hkey'
  cases hkey'
  have hworkspace : info.workspace = issued.workspace :=
    WorkspaceId.asStr_injective (hshows.workspace.symm.trans hholds.workspace)
  have hrole : info.role = issued.role := by
    rw [hshows.role, hholds.role, roleFrom_text]
  rw [authenticate_row (sound_reached es) hr hholds.keyId hholds.secretHash hshows, hworkspace,
    hrole, hshows.label, hholds.label, ← hholds.id]
  rfl

/-- The secrets of the keys a call returns. -/
def issues (c : Control) (e : Nat × ControlCall) : List (Fin (16 ^ 64)) :=
  match (c.answer e).1 with
  | .created (.ok (key, _)) => [key.secret]
  | _ => []

/-- The secrets a call presents. -/
def presents (e : Nat × ControlCall) : List (Fin (16 ^ 64)) :=
  match e.2 with
  | .authenticate token _ => (ApiKey.parse token).toList.map ApiKey.secret
  | _ => []

theorem mem_issues {key : ApiKey} {issued : KeyInfo}
    (h : (c.answer e).1 = .created (.ok (key, issued))) : key.secret ∈ issues c e := by
  unfold issues
  rw [h]
  exact List.mem_singleton_self _

/-- The secrets a run returns, and those it presents. -/
def secrets (es : List (Nat × ControlCall)) : List (Fin (16 ^ 64)) :=
  Runs.history exec issues .empty es ++ es.flatMap presents

/-- No two secrets of a run have the same hash. -/
def NoCollision (es : List (Nat × ControlCall)) : Prop :=
  ∀ a ∈ secrets es, ∀ b ∈ secrets es, secretHash a = secretHash b → a = b

theorem noCollision_of_one {es : List (Nat × ControlCall)} {secret : Fin (16 ^ 64)}
    (h : ∀ a ∈ secrets es, a = secret) : NoCollision es := by
  intro a ha b hb _
  rw [h a ha, h b hb]

/-- No two keys of a run have the same secret. -/
def Fresh (es : List (Nat × ControlCall)) : Prop := (Runs.history exec issues .empty es).Nodup

/-- The answer to a token at a time, after the calls so far. -/
structure Answers (es : List (Nat × ControlCall)) (now : Nat) (token : String)
    (answer : Except ApiError Authenticated) : Prop where
  ok : ∀ auth, answer = .ok auth ↔ ∃ issued info, Opens es token issued info ∧
    info.state now = .active ∧ auth = issued.caller info
  revoked : answer = .error .keyRevoked ↔
    ∃ issued info, Opens es token issued info ∧ info.state now = .revoked
  expired : answer = .error .keyExpired ↔
    ∃ issued info, Opens es token issued info ∧ info.state now = .expired
  otherwise : answer = .error .unauthenticated ↔ ¬ ∃ issued info, Opens es token issued info

/-- **`authenticate` answers by the key and its state.** -/
theorem answers {es pre post : List (Nat × ControlCall)} {now : Nat} {token : String}
    {noted : Bool} (hsplit : es = pre ++ (now, .authenticate token noted) :: post)
    (hsha : NoCollision es) :
    Answers pre now token ((reached pre).authenticate now token noted).1 := by
  by_cases hopens : ∃ issued info, Opens pre token issued info
  · obtain ⟨issued, info, h⟩ := hopens
    have hanswer := h.answer now noted
    have hsame : ∀ issued' info', Opens pre token issued' info' →
        answerBy (info'.state now) (issued'.caller info') =
          answerBy (info.state now) (issued.caller info) :=
      fun _ _ h' => (h'.answer now noted).symm.trans hanswer
    rw [hanswer]
    constructor
    · intro auth
      constructor
      · intro hok
        refine ⟨issued, info, h, ?_⟩
        cases hstate : info.state now <;> rw [hstate] at hok <;> cases hok
        exact ⟨rfl, rfl⟩
      · rintro ⟨issued', info', h', hstate, rfl⟩
        rw [← hsame issued' info' h', hstate]
        rfl
    · constructor
      · intro herror
        refine ⟨issued, info, h, ?_⟩
        cases hstate : info.state now <;> rw [hstate] at herror <;> cases herror
      · rintro ⟨issued', info', h', hstate⟩
        rw [← hsame issued' info' h', hstate]
        rfl
    · constructor
      · intro herror
        refine ⟨issued, info, h, ?_⟩
        cases hstate : info.state now <;> rw [hstate] at herror <;> cases herror
      · rintro ⟨issued', info', h', hstate⟩
        rw [← hsame issued' info' h', hstate]
        rfl
    · refine iff_of_false (fun herror => ?_) (not_not_intro ⟨issued, info, h⟩)
      cases hstate : info.state now <;> rw [hstate] at herror <;> cases herror
  · have hanswer : ((reached pre).authenticate now token noted).1 = .error .unauthenticated := by
      refine authenticate_none (fun key hparse r hr hid hhash => hopens ?_) now noted
      -- the row is that of a key with this hash, so with this secret
      obtain ⟨pre0, e0, post0, key0, issued, horigin, hholds⟩ := origin pre hr
      have hissued : key0.secret ∈ Runs.history exec issues .empty es := by
        rw [hsplit, horigin.split, List.append_assoc, List.cons_append]
        exact Runs.mem_history exec (mem_issues horigin.created)
      have hpresented : key.secret ∈ es.flatMap presents := by
        rw [hsplit]
        refine List.mem_flatMap.mpr ⟨_, List.mem_append_right _ List.mem_cons_self, ?_⟩
        show key.secret ∈ (ApiKey.parse token).toList.map ApiKey.secret
        rw [hparse]
        exact List.mem_singleton_self _
      have hsecret : key0.secret = key.secret :=
        hsha _ (List.mem_append_left _ hissued) _ (List.mem_append_right _ hpresented)
          (hholds.secretHash.symm.trans hhash)
      have hkeyId : key0.id = key.id :=
        ApiKey.keyId_injective (congrArg ApiKeyId.mk (hholds.keyId.symm.trans hid))
      have hkey : key0 = key := by
        obtain ⟨id, secret⟩ := key
        cases hkeyId
        cases hsecret
        rfl
      obtain ⟨info, hinfo, -⟩ := (sound_reached pre).key_row hr hholds.keyId
      refine ⟨issued, info, pre0, e0, post0, key0, horigin, ?_, hinfo⟩
      rw [hkey]
      exact ApiKey.parse_eq_some.mp hparse
    rw [hanswer]
    constructor
    · intro auth
      exact iff_of_false (fun h => by cases h)
        fun ⟨issued, info, h, _⟩ => hopens ⟨issued, info, h⟩
    · exact iff_of_false (fun h => by cases h)
        fun ⟨issued, info, h, _⟩ => hopens ⟨issued, info, h⟩
    · exact iff_of_false (fun h => by cases h)
        fun ⟨issued, info, h, _⟩ => hopens ⟨issued, info, h⟩
    · exact iff_of_true rfl hopens

/-! ## What ends a key -/

/-- The call has revoked the key, deleted it, or deleted its workspace. -/
def Ends (c : Control) (e : Nat × ControlCall) (info : KeyInfo) : Prop :=
  match e.2, (c.answer e).1 with
  | .revokeKey id, .changed (.ok _) => id = info.id.text
  | .deleteKey id, .changed (.ok _) => id = info.id.text
  | .deleteWorkspace _, .workspace (.ok found) => found.id = info.workspace
  | _, _ => False

omit [Crates] in
/-- A change that is answered has run its statement. -/
theorem changeKey_ok {now : Nat} {id action : String} {statement : List KeyRow → List KeyRow}
    {info : KeyInfo} (h : (c.changeKey now id action statement).1 = .ok info) :
    (c.changeKey now id action statement).2.keys = statement c.keys := by
  obtain ⟨-, hkeys⟩ := c.changeKey_keys now id action statement
  rw [hkeys]
  cases hkey : c.key id with
  | ok before => rfl
  | error e =>
    unfold changeKey at h
    rw [hkey] at h
    cases h

/-- **After the call there is no row of the key that is not revoked.** -/
theorem Ends.revoked (hs : c.Sound) {r r' : KeyRow} {info : KeyInfo} (hr : r ∈ c.keys)
    (hshows : Shows info r) (h : Ends c e info) (hr' : r' ∈ (c.exec e).keys)
    (hid : r'.keyId = r.keyId) : r'.revokedAt.isSome = true := by
  obtain ⟨now, call⟩ := e
  rw [← hshows.id] at hid
  cases call with
  | revokeKey id =>
    -- revoked: the row stays, with a time in `revoked_at`
    cases hanswer : (c.revokeKey now id).1 with
    | error e =>
      have hnot : (c.answer (now, .revokeKey id)).1 = .changed (.error e) :=
        congrArg ControlAnswer.changed hanswer
      unfold Ends at h
      rw [hnot] at h
      cases h
    | ok after =>
      have hdone : (c.answer (now, .revokeKey id)).1 = .changed (.ok after) :=
        congrArg ControlAnswer.changed hanswer
      unfold Ends at h
      rw [hdone] at h
      have hkeys : (c.revokeKey now id).2.keys = _ := changeKey_ok hanswer
      have hmem : r' ∈ (c.revokeKey now id).2.keys := hr'
      rw [hkeys] at hmem
      obtain ⟨r0, -, rfl⟩ := List.mem_map.mp hmem
      by_cases hr0 : r0.keyId = id
      · rw [if_pos hr0]
        show (r0.revokedAt.or (some (toDb now))).isSome = true
        rw [Option.isSome_or]
        exact Bool.or_true _
      · rw [if_neg hr0] at hid
        exact absurd (hid.trans h.symm) hr0
  | deleteKey id =>
    -- deleted: no row has the id any more
    cases hanswer : (c.deleteKey now id).1 with
    | error e =>
      have hnot : (c.answer (now, .deleteKey id)).1 = .changed (.error e) :=
        congrArg ControlAnswer.changed hanswer
      unfold Ends at h
      rw [hnot] at h
      cases h
    | ok after =>
      have hdone : (c.answer (now, .deleteKey id)).1 = .changed (.ok after) :=
        congrArg ControlAnswer.changed hanswer
      unfold Ends at h
      rw [hdone] at h
      have hkeys : (c.deleteKey now id).2.keys = _ := changeKey_ok hanswer
      have hmem : r' ∈ (c.deleteKey now id).2.keys := hr'
      rw [hkeys] at hmem
      have hne : r'.keyId ≠ id := by simpa using (List.mem_filter.mp hmem).2
      exact absurd (hid.trans h.symm) hne
  | deleteWorkspace name =>
    -- gone with its workspace: the row of the id would be the one looked at
    cases hfound : c.workspace name with
    | error e =>
      have hnot : (c.answer (now, .deleteWorkspace name)).1 = .workspace (.error e) := by
        show ControlAnswer.workspace (c.deleteWorkspace now name).1 = _
        unfold deleteWorkspace
        rw [hfound]
      unfold Ends at h
      rw [hnot] at h
      cases h
    | ok found =>
      have hdone : (c.answer (now, .deleteWorkspace name)).1 = .workspace (.ok found) := by
        show ControlAnswer.workspace (c.deleteWorkspace now name).1 = _
        unfold deleteWorkspace
        rw [hfound]
      unfold Ends at h
      rw [hdone] at h
      have hmem : r' ∈ (c.deleteWorkspace now name).2.keys := hr'
      unfold deleteWorkspace at hmem
      rw [hfound] at hmem
      obtain ⟨hold, hworkspace⟩ := List.mem_filter.mp hmem
      have hsame : r' = r := hs.eq_of_keyId hold hr (hid.trans hshows.id)
      have hne : r'.workspace ≠ found.id.asStr := by simpa using hworkspace
      rw [hsame, hshows.workspace, ← h] at hne
      exact absurd rfl hne
  | createWorkspace name quotaBytes fresh => cases h
  | createKey workspace label role expiresIn draws => cases h
  | extendKey id expiresIn => cases h
  | pruneKeys olderThan => cases h
  | authenticate token noted => cases h

/-- **A key that was revoked or deleted opens nothing any more, whatever follows.** -/
theorem ended {es pre mid post : List (Nat × ControlCall)} {now : Nat} {token : String}
    {noted : Bool} {issued info : KeyInfo}
    (hsplit : es = pre ++ e :: (mid ++ (now, .authenticate token noted) :: post))
    (hfresh : Fresh es) (hsha : NoCollision es) (hopens : Opens pre token issued info)
    (hends : Ends (reached pre) e info) (auth : Authenticated) :
    ((reached (pre ++ e :: mid)).authenticate now token noted).1 ≠ .ok auth := by
  intro hok
  have hsplit' : es = (pre ++ e :: mid) ++ (now, .authenticate token noted) :: post := by
    rw [hsplit, List.append_assoc, List.cons_append]
  obtain ⟨issued', info', hopens', hactive, -⟩ := ((answers hsplit' hsha).ok auth).mp hok
  obtain ⟨pre1, e1, post1, key, horigin, htoken, hkey⟩ := hopens
  obtain ⟨pre2, e2, post2, key', horigin', htoken', hkey'⟩ := hopens'
  obtain rfl : key = key' := ApiKey.reveal_injective (htoken.symm.trans htoken')
  -- the call that made the key is the same, so its row was there all the time
  have hsplits : pre1 ++ e1 :: (post1 ++ e :: mid) = pre2 ++ e2 :: post2 := by
    rw [← horigin'.split, horigin.split, List.append_assoc, List.cons_append]
  have hnodup : (Runs.history exec issues .empty (pre1 ++ e1 :: (post1 ++ e :: mid))).Nodup := by
    have hall := hfresh
    unfold Fresh at hall
    rw [hsplit', horigin'.split, ← hsplits, Runs.history_append] at hall
    exact (List.nodup_append.mp hall).1
  obtain ⟨rfl, rfl, rfl⟩ := Runs.eq_of_nodup_history exec hsplits hnodup
    (mem_issues horigin.created) (mem_issues horigin'.created)
  have hpre : Runs.run exec ((reached pre1).exec e1) post1 = reached pre := by
    rw [horigin.split, reached_append]
    rfl
  obtain ⟨-, halong⟩ := (Runs.along_append exec).mp horigin'.kept.1
  have hend := horigin'.kept.2
  rw [hpre] at halong
  rw [Runs.run_append, hpre] at hend
  obtain ⟨r, hr, hholds⟩ := horigin.row
  obtain ⟨info0, hkey0, hshows⟩ := (sound_reached pre).key_row hr hholds.keyId
  rw [hkey] at hkey0
  cases hkey0
  have hkept : Kept r.keyId (reached pre) (e :: mid) := by
    rw [hholds.keyId]
    exact ⟨halong, hend⟩
  have hnamed : ((reached pre).exec e).names r.keyId = true := by
    cases mid with
    | nil => exact hkept.2
    | cons e' mid => exact hkept.1.2.1
  obtain ⟨r1, hr1, hcontinues⟩ := follow_exec (sound_reached pre) hr hnamed
  have hrevoked := hends.revoked (sound_reached pre) hr hshows hr1 hcontinues.keyId
  have hkept1 : Kept r1.keyId ((reached pre).exec e) mid := by
    rw [hcontinues.keyId]
    exact ⟨hkept.1.2, hkept.2⟩
  obtain ⟨r2, hr2, hcontinues2⟩ := follow ((sound_reached pre).exec e) hr1 hkept1
  have hstill := hcontinues2.revokedAt hrevoked
  have hr2' : r2 ∈ (reached (pre ++ e :: mid)).keys := by
    rw [reached_append]
    exact hr2
  obtain ⟨info2, hkey2, hshows2⟩ := (sound_reached _).key_row hr2'
    (hcontinues2.keyId.trans (hcontinues.keyId.trans hholds.keyId))
  rw [hkey'] at hkey2
  cases hkey2
  have hstate := (hshows2.state_revoked ((sound_reached _).fits r2 hr2') now).mpr
    (by rw [hstill]; exact hrevoked)
  rw [hstate] at hactive
  cases hactive

/-! ## What a prune deletes -/

omit [Crates] in
theorem le_toDb {t : Int} {before : Nat} (h : 0 ≤ t ∧ t < dbBound) :
    t ≤ toDb before ↔ t.toNat ≤ before := by
  unfold toDb
  split
  · omega
  · omega

omit [Crates] in
/-- **The prune's condition is about what is shown.** -/
theorem prunedAt_eq {info : KeyInfo} {r : KeyRow} (hshows : Shows info r) (hfits : r.Fits)
    (before : Nat) : r.prunedAt (toDb before) = info.doneBy before := by
  unfold KeyRow.prunedAt KeyInfo.doneBy
  rw [hshows.revokedAt, hshows.expiresAt, fromDb_of_stored64 hfits.revokedAt,
    fromDb_of_stored64 hfits.expiresAt]
  cases hrevoked : r.revokedAt with
  | some revoked =>
    have hle := @le_toDb revoked before (hfits.revokedAt revoked hrevoked)
    simp only [Option.some_or, Option.any_some, Option.map_some, decide_eq_decide]
    exact hle
  | none =>
    cases hexpires : r.expiresAt with
    | none => rfl
    | some expires =>
      have hle := @le_toDb expires before (hfits.expiresAt expires hexpires)
      simp only [Option.none_or, Option.any_some, Option.map_some, Option.map_none,
        decide_eq_decide]
      exact hle

omit [Crates] in
theorem key_error {id : String} (h : ∀ r ∈ c.keys, r.keyId ≠ id) :
    c.key id = .error (.noSuchKey id) := by
  have hfind : (c.keys.find? fun k => k.keyId = id) = none := by
    rw [List.find?_eq_none]
    intro r hr
    simpa using h r hr
  unfold key
  rw [hfind]

/-- What a prune leaves of what is shown of a key. -/
def unlessDone (id : String) (before : Nat) (shown : Except ControlError KeyInfo) :
    Except ControlError KeyInfo :=
  match shown with
  | .ok info => if info.doneBy before then .error (.noSuchKey id) else .ok info
  | .error e => .error e

/-- **A prune deletes the keys that are done by then, and no others.** -/
theorem pruned (hs : c.Sound) (now olderThan : Nat) (id : String) :
    (c.exec (now, .pruneKeys olderThan)).key id =
      unlessDone id (now - olderThan) (c.key id) := by
  have hs' := hs.exec (now, .pruneKeys olderThan)
  have hkeys : (c.exec (now, .pruneKeys olderThan)).keys =
      c.keys.filter fun k => !k.prunedAt (toDb (now - olderThan)) :=
    (pruneKeys_tables c now olderThan).2
  have hworkspaces : (c.exec (now, .pruneKeys olderThan)).workspaces = c.workspaces :=
    (pruneKeys_tables c now olderThan).1
  by_cases hrow : ∃ r ∈ c.keys, r.keyId = id
  · obtain ⟨r, hr, hid⟩ := hrow
    obtain ⟨info, hkey, hshows⟩ := hs.key_row hr hid
    have hcondition := prunedAt_eq hshows (hs.fits r hr) (now - olderThan)
    rw [hkey]
    show _ = if info.doneBy (now - olderThan) = true then _ else _
    by_cases hdone : info.doneBy (now - olderThan) = true
    · rw [if_pos hdone]
      refine key_error fun r' hr' hid' => ?_
      rw [hkeys] at hr'
      obtain ⟨hold, hnot⟩ := List.mem_filter.mp hr'
      rw [hs.eq_of_keyId hold hr (hid'.trans hid.symm), hcondition, hdone] at hnot
      cases hnot
    · rw [if_neg hdone, ← hkey]
      have hr' : r ∈ (c.exec (now, .pruneKeys olderThan)).keys := by
        rw [hkeys]
        refine List.mem_filter.mpr ⟨hr, ?_⟩
        rw [hcondition, Bool.eq_false_iff.mpr hdone]
        rfl
      unfold key
      rw [hs'.find_row hr' hid, hs.find_row hr hid, hworkspaces]
  · have hnone : ∀ r ∈ c.keys, r.keyId ≠ id := fun r hr hid => hrow ⟨r, hr, hid⟩
    rw [key_error hnone]
    refine key_error fun r' hr' => ?_
    rw [hkeys] at hr'
    exact hnone r' (List.mem_of_mem_filter hr')

/-! ## The life cycle -/

/-- The promises about the keys of a run, call by call. -/
structure LifeCycle (es : List (Nat × ControlCall)) : Prop where
  /-- A token is answered by its key, the key's row, and the row's state. -/
  authenticates : ∀ pre now token noted post, es = pre ++ (now, .authenticate token noted) :: post →
    Answers pre now token ((reached pre).authenticate now token noted).1
  /-- Once its key is revoked or deleted, a token is refused for good. -/
  ends : ∀ pre e mid now token noted post issued info,
    es = pre ++ e :: (mid ++ (now, .authenticate token noted) :: post) →
    Opens pre token issued info → Ends (reached pre) e info →
    ∀ auth, ((reached (pre ++ e :: mid)).authenticate now token noted).1 ≠ .ok auth
  /-- A prune deletes the keys that were done that long ago, and none that is active. -/
  prunes : ∀ pre now olderThan post, es = pre ++ (now, .pruneKeys olderThan) :: post →
    ∀ id, (reached (pre ++ [(now, .pruneKeys olderThan)])).key id =
        unlessDone id (now - olderThan) ((reached pre).key id) ∧
      ∀ info, (reached pre).key id = .ok info → info.state now = .active →
        info.doneBy (now - olderThan) = false

/-- **The life of a key.** In every run, at whatever times its calls are made. -/
theorem life_cycle (es : List (Nat × ControlCall)) (hfresh : Fresh es) (hsha : NoCollision es) :
    LifeCycle es where
  authenticates pre now token noted post hsplit := answers hsplit hsha
  ends pre e mid now token noted post issued info hsplit hopens hends :=
    ended hsplit hfresh hsha hopens hends
  prunes pre now olderThan post hsplit id := by
    constructor
    · rw [reached_append]
      exact pruned (sound_reached pre) now olderThan id
    · intro info hkey hactive
      by_contra hdone
      rw [Bool.not_eq_false] at hdone
      exact KeyInfo.not_active (Nat.sub_le now olderThan) hdone hactive

end

instance [Crates] (es : List (Nat × ControlCall)) : Decidable (Fresh es) :=
  inferInstanceAs (Decidable (List.Nodup _))

end Control

namespace Sample

def phoneKey : ApiKey := ⟨7, 1⟩

theorem parse_phoneKey : ApiKey.parse phoneKey.reveal = some phoneKey :=
  ApiKey.parse_eq_some.mpr rfl

/-- Hashes the secret of `phoneKey` as SHA-256 does. -/
@[reducible] def hashing : Crates where
  sha256 bytes :=
    if bytes = (numberText 64 1).map fun c => UInt8.ofNat c.toNat then
      ⟨88439260034288155279322478342177998140347339774338525891869485392729679049751⟩
    else ⟨0⟩
  readMeta _ := none

/-- A key is made, used, revoked, extended, tried again, and pruned. -/
def keyCalls : List (Nat × ControlCall) :=
  [(10, .createWorkspace "home" none ⟨5⟩),
    (10, .createKey "home" "phone" .readWrite (some 100) [phoneKey]),
    (20, .authenticate phoneKey.reveal true),
    (30, .revokeKey phoneKey.keyId.text),
    (40, .extendKey phoneKey.keyId.text none),
    (50, .authenticate phoneKey.reveal true),
    (60, .pruneKeys 30)]

end Sample

theorem Control.life_cycle_calls : @Control.LifeCycle Sample.hashing Sample.keyCalls := by
  let _ : Crates := Sample.hashing
  have hissues : Runs.history Control.exec Control.issues .empty Sample.keyCalls = [1] := by
    decide +kernel
  have hpresents : Sample.keyCalls.flatMap Control.presents = [1, 1] := by
    simp only [Sample.keyCalls, List.flatMap_cons, List.flatMap_nil, Control.presents,
      Sample.parse_phoneKey]
    rfl
  have hone : ∀ a ∈ Control.secrets Sample.keyCalls, a = 1 := by
    rw [Control.secrets, hissues, hpresents]
    simp
  exact Control.life_cycle Sample.keyCalls (by decide +kernel) (Control.noCollision_of_one hone)

end Passalong
