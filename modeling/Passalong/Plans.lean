import Passalong.Service

/-!
# Performing a plan (`service/plan.rs`, `service/mod.rs`)

The actions of a plan stand in an order of their own (`rank`), and each leaves its own part of
the host. So what a plan that stops has left (`Reached`) follows from the set of actions it
has done, whatever the host was before.
-/

namespace Passalong

open Lib

namespace Service

section
variable {env : Setting} {seed : Nat} {h h' : Host}

/-! ## Performing one part after the other -/

theorem performAll_cons (action : Action) (rest : List Action) :
    performAll env seed h (action :: rest) =
      match perform env seed h action with
      | .error e => .error e
      | .ok h' => performAll env seed h' rest := rfl

theorem performAll_append (xs ys : List Action) :
    performAll env seed h (xs ++ ys) =
      match performAll env seed h xs with
      | .error e => .error e
      | .ok h' => performAll env seed h' ys := by
  induction xs generalizing h with
  | nil => rfl
  | cons action xs ih =>
    rw [List.cons_append, performAll_cons, performAll_cons]
    cases perform env seed h action with
    | error e => rfl
    | ok h' => exact ih

/-- What succeeds has done its first part. -/
theorem performAll_append_ok {xs ys : List Action} {h'' : Host}
    (hdone : performAll env seed h (xs ++ ys) = .ok h'') :
    ∃ h', performAll env seed h xs = .ok h' ∧ performAll env seed h' ys = .ok h'' := by
  rw [performAll_append] at hdone
  cases hfirst : performAll env seed h xs with
  | error e =>
    rw [hfirst] at hdone
    cases hdone
  | ok h' =>
    rw [hfirst] at hdone
    exact ⟨h', rfl, hdone⟩

theorem performAll_singleton (action : Action) :
    performAll env seed h [action] = perform env seed h action := by
  unfold performAll
  cases perform env seed h action with
  | error e => rfl
  | ok h' => rfl

/-! ## The actions of a plan -/

section Actions
variable (env : Setting) (found : Found)

/-- The plan without the start at its end. -/
def bodyActions : List Action :=
  binaryActions env found ++ sysusersActions env found ++ dirActions env ++
    configActions env found ++ pairActions env found ++ unitActions env found ++ [enableUnit]

def installIt : Action := .installBinary found.running env.layout.binary

def writeSysusers : Action := .writeFile env.layout.sysusers env.sysusersText 0o644 .root

/-- A directory is handed to the service's user. -/
def makeIt (path : String) : Action := .makeDir path 0o700 .service

def writeConfig : Action := .writeFile env.layout.configFile env.wanted.initialConfig 0o600 .service

def writeUnit : Action := .writeFile env.layout.unit env.unitText 0o644 .root

/-- An action of the plan, and why it is in it. -/
inductive Planned : Action → Prop where
  | installIt (hinstalls : found.installs env = true) : Planned (installIt env found)
  | writeSysusers (hsysusers : found.sysusers ≠ .same) : Planned (writeSysusers env)
  | runSysusers (hsysusers : found.sysusers ≠ .same) : Planned (runSysusers env.layout)
  | makeIt {path : String} (hpath : path ∈ env.layout.directories) : Planned (makeIt path)
  | writeConfig (hconfig : found.configExists = false) : Planned (writeConfig env)
  | makePair {certFile keyFile : String} (htls : found.tls = some (certFile, keyFile))
    (hmakes : found.makesPair env = true) :
    Planned (.makePair certFile keyFile env.wanted.names)
  | writeUnit (hunit : found.unit ≠ .same) : Planned (writeUnit env)
  | daemonReload (hunit : found.unit ≠ .same) : Planned daemonReload
  | enableUnit : Planned enableUnit

end Actions

/-- The files the command writes, and the pair's, are different ones, and none of those it
asks for is one of the directories it makes. -/
structure Apart (layout : HostLayout) (tls : Option (String × String)) : Prop where
  files : [layout.unit, layout.sysusers, layout.configFile].Nodup
  config : layout.configFile ∉ layout.directories
  pair : ∀ paths ∈ tls, ∀ path ∈ [paths.1, paths.2],
    path ∉ [layout.unit, layout.sysusers, layout.configFile] ++ layout.directories

/-- Where in a plan an action stands. -/
def rank (layout : HostLayout) : Action → Nat
  | .installBinary _ _ => 0
  | .writeFile path _ _ _ =>
    if path = layout.sysusers then 1 else if path = layout.configFile then 4 else 6
  | .makeDir _ _ _ => 3
  | .makePair _ _ _ => 5
  | .removeFile _ => 9
  | .run program args =>
    if program = "systemd-sysusers" then 2
    else if args = ["daemon-reload"] then 7
    else if args = ["enable", unitName] then 8
    else 9

/-- One action comes before another, or both make directories. -/
def Before (layout : HostLayout) (a b : Action) : Prop :=
  rank layout a < rank layout b ∨ rank layout a = 3 ∧ rank layout b = 3

section Ranks
variable {found : Found} {a : Action}

/-- **The actions of a plan**, its start apart. -/
theorem mem_bodyActions : a ∈ bodyActions env found ↔ Planned env found a := by
  simp only [bodyActions, List.mem_append, List.mem_singleton]
  constructor
  · rintro ((((((ha | ha) | ha) | ha) | ha) | ha) | rfl)
    · unfold binaryActions at ha
      split at ha
      · next hinstalls => exact List.mem_singleton.mp ha ▸ .installIt hinstalls
      · cases ha
    · unfold sysusersActions at ha
      split at ha
      · next hsysusers =>
        rcases List.mem_cons.mp ha with rfl | ha
        · exact .writeSysusers hsysusers
        · exact List.mem_singleton.mp ha ▸ .runSysusers hsysusers
      · cases ha
    · obtain ⟨path, hpath, rfl⟩ := List.mem_map.mp ha
      exact .makeIt hpath
    · unfold configActions at ha
      split at ha
      · cases ha
      · next hconfig =>
        exact List.mem_singleton.mp ha ▸ .writeConfig (Bool.eq_false_iff.mpr hconfig)
    · unfold pairActions at ha
      split at ha
      · cases ha
      · next htls =>
        split at ha
        · next hmakes => exact List.mem_singleton.mp ha ▸ .makePair htls hmakes
        · cases ha
    · unfold unitActions at ha
      split at ha
      · next hunit =>
        rcases List.mem_cons.mp ha with rfl | ha
        · exact .writeUnit hunit
        · exact List.mem_singleton.mp ha ▸ .daemonReload hunit
      · cases ha
    · exact .enableUnit
  · intro ha
    cases ha with
    | installIt hinstalls => simp [binaryActions, hinstalls, installIt]
    | writeSysusers hsysusers => simp [sysusersActions, hsysusers, writeSysusers]
    | runSysusers hsysusers => simp [sysusersActions, hsysusers]
    | makeIt hpath => simp [dirActions, makeIt, hpath]
    | writeConfig hconfig => simp [configActions, hconfig, writeConfig]
    | makePair htls hmakes => simp [pairActions, htls, hmakes]
    | writeUnit hunit => simp [unitActions, hunit, writeUnit]
    | daemonReload hunit => simp [unitActions, hunit]
    | enableUnit => simp

theorem rank_writeSysusers : rank env.layout (writeSysusers env) = 1 := if_pos rfl

theorem rank_runSysusers : rank env.layout (runSysusers env.layout) = 2 := rfl

theorem rank_writeConfig (hapart : Apart env.layout found.tls) :
    rank env.layout (writeConfig env) = 4 := by
  have hfiles := hapart.files
  simp only [List.nodup_cons, List.mem_cons, not_or] at hfiles
  show (if _ then 1 else if _ then 4 else 6) = 4
  rw [if_neg (Ne.symm hfiles.2.1.1), if_pos rfl]

theorem rank_writeUnit (hapart : Apart env.layout found.tls) :
    rank env.layout (writeUnit env) = 6 := by
  have hfiles := hapart.files
  simp only [List.nodup_cons, List.mem_cons, not_or] at hfiles
  show (if _ then 1 else if _ then 4 else 6) = 6
  rw [if_neg hfiles.1.1, if_neg hfiles.1.2.1]

theorem rank_daemonReload : rank env.layout daemonReload = 7 := rfl

theorem rank_enableUnit : rank env.layout enableUnit = 8 := rfl

theorem rank_restartUnit : rank env.layout restartUnit = 9 := rfl

theorem rank_startUnit : rank env.layout startUnit = 9 := rfl

/-- Actions in order, of ranks from one to another. -/
structure Ranked (layout : HostLayout) (low high : Nat) (actions : List Action) : Prop where
  ordered : actions.Pairwise (Before layout)
  ranks : ∀ a ∈ actions, low ≤ rank layout a ∧ rank layout a < high

namespace Ranked
variable {layout : HostLayout} {low mid high : Nat} {xs ys : List Action}

theorem nil : Ranked layout low high [] := ⟨List.Pairwise.nil, fun _ h => by cases h⟩

theorem singleton (hlow : low ≤ rank layout a) (hhigh : rank layout a < high) :
    Ranked layout low high [a] := by
  refine ⟨List.pairwise_singleton _ a, fun b hb => ?_⟩
  rw [List.mem_singleton.mp hb]
  exact ⟨hlow, hhigh⟩

theorem append (hlow : low ≤ mid) (hhigh : mid ≤ high) (hx : Ranked layout low mid xs)
    (hy : Ranked layout mid high ys) : Ranked layout low high (xs ++ ys) where
  ordered := by
    refine List.pairwise_append.mpr ⟨hx.ordered, hy.ordered, fun a ha b hb => .inl ?_⟩
    have h1 := (hx.ranks a ha).2
    have h2 := (hy.ranks b hb).1
    omega
  ranks a ha := by
    rcases List.mem_append.mp ha with ha | ha
    · have h1 := hx.ranks a ha
      omega
    · have h1 := hy.ranks a ha
      omega

end Ranked

/-- **The actions of a plan stand in order.** -/
theorem ranked_bodyActions (hapart : Apart env.layout found.tls) :
    Ranked env.layout 0 9 (bodyActions env found) := by
  -- each part of the plan has ranks of its own
  have hbinary : Ranked env.layout 0 1 (binaryActions env found) := by
    unfold binaryActions
    split
    · exact .singleton (Nat.le_refl 0) Nat.one_pos
    · exact .nil
  have hsysusers : Ranked env.layout 1 3 (sysusersActions env found) := by
    unfold sysusersActions
    split
    · have hwrite : Ranked env.layout 1 2 [writeSysusers env] :=
        .singleton (by rw [rank_writeSysusers]) (by rw [rank_writeSysusers]; decide)
      have hrun : Ranked env.layout 2 3 [runSysusers env.layout] :=
        .singleton (by rw [rank_runSysusers]) (by rw [rank_runSysusers]; decide)
      exact hwrite.append (by decide) (by decide) hrun
    · exact .nil
  have hdirs : Ranked env.layout 3 4 (dirActions env) := by
    have hrank : ∀ a ∈ dirActions env, rank env.layout a = 3 := by
      intro a ha
      obtain ⟨path, -, rfl⟩ := List.mem_map.mp ha
      rfl
    constructor
    · refine List.pairwise_of_forall_mem_list fun a ha b hb => .inr ?_
      exact ⟨hrank a ha, hrank b hb⟩
    · intro a ha
      rw [hrank a ha]
      decide
  have hconfig : Ranked env.layout 4 5 (configActions env found) := by
    unfold configActions
    split
    · exact .nil
    · have hrank := rank_writeConfig hapart
      have hwrite : Ranked env.layout 4 5 [writeConfig env] :=
        .singleton (by rw [hrank]) (by rw [hrank]; decide)
      exact hwrite
  have hpair : Ranked env.layout 5 6 (pairActions env found) := by
    unfold pairActions
    split
    · exact .nil
    · split
      · exact .singleton (Nat.le_refl 5) (Nat.lt_succ_self 5)
      · exact .nil
  have hunit : Ranked env.layout 6 8 (unitActions env found) := by
    unfold unitActions
    split
    · have hrank := rank_writeUnit hapart
      have hwrite : Ranked env.layout 6 7 [writeUnit env] :=
        .singleton (by rw [hrank]) (by rw [hrank]; decide)
      have hrun : Ranked env.layout 7 8 [daemonReload] :=
        .singleton (by rw [rank_daemonReload]) (by rw [rank_daemonReload]; decide)
      exact hwrite.append (by decide) (by decide) hrun
    · exact .nil
  have henable : Ranked env.layout 8 9 [enableUnit] :=
    .singleton (by rw [rank_enableUnit]) (by rw [rank_enableUnit]; decide)
  -- and the parts stand one after the other
  have h1 := hbinary.append (by decide) (by decide) hsysusers
  have h2 := h1.append (by decide) (by decide) hdirs
  have h3 := h2.append (by decide) (by decide) hconfig
  have h4 := h3.append (by decide) (by decide) hpair
  have h5 := h4.append (by decide) (by decide) hunit
  exact h5.append (by decide) (by decide) henable

end Ranks

/-! ## What an action does -/

/-- The ids of an owner, where those of the service's user are known. -/
def Owner.ids (service : Ids) : Owner → Ids
  | .root => (0, 0)
  | .service => service

theorem idsOf_ok {owner : Owner} {ids : Ids} (hids : idsOf h owner = .ok ids) (other : Ids) :
    ids = owner.ids (h.user.getD other) := by
  unfold idsOf at hids
  cases owner with
  | root => exact (Except.ok.inj hids).symm
  | service =>
    cases huser : h.user with
    | none =>
      rw [huser] at hids
      cases hids
    | some found =>
      rw [huser] at hids
      exact (Except.ok.inj hids).symm

/-- Copies the binary into its place. -/
def Action.installs : Action → Bool
  | .installBinary _ _ => true
  | _ => false

/-- The file an action leaves at a path. -/
def wrote (env : Setting) (seed : Nat) (ids : Ids) (path : String) : Action → Option HostFile
  | .writeFile target content mode owner =>
    if path = target then some ⟨.text content, mode, owner.ids ids⟩ else none
  | .makePair certFile keyFile names =>
    match env.selfSigned names with
    | .error _ => none
    | .ok pair =>
      if path = certFile then some ⟨.text (pair seed).cert, 0o644, ids⟩
      else if path = keyFile then some ⟨.text (pair seed).key, 0o600, ids⟩
      else none
  | _ => none

/-- The directory an action leaves at a path. -/
def made (ids : Ids) (path : String) : Action → Option (Nat × Ids)
  | .makeDir target mode owner => if path = target then some (mode, owner.ids ids) else none
  | _ => none

/-- What an action that succeeds has done to each part of the host. -/
structure Performed (env : Setting) (seed : Nat) (h : Host) (a : Action) (h' : Host) : Prop where
  files : ∀ path : String,
    h'.files[path]? = (wrote env seed (h.user.getD env.newIds) path a).or h.files[path]?
  dirs : ∀ path : String,
    h'.dirs[path]? = (made (h.user.getD env.newIds) path a).or h.dirs[path]?
  binary : h'.binary = if a.installs then some env.image else h.binary
  user : h'.user =
    if a = runSysusers env.layout then some (h.user.getD env.newIds) else h.user
  loaded : h'.loaded =
    if a = daemonReload ∨ a = enableUnit ∧ env.enableLoads then h.read env.layout.unit
    else h.loaded
  enabled : h'.enabled = (h.enabled || a = enableUnit)
  service : a ≠ startUnit → a ≠ restartUnit → h'.service = h.service

@[simp] theorem runSysusers_ne_daemonReload (layout : HostLayout) :
    runSysusers layout ≠ daemonReload := by
  simp [runSysusers, daemonReload]

@[simp] theorem runSysusers_ne_enableUnit (layout : HostLayout) :
    runSysusers layout ≠ enableUnit := by
  simp [runSysusers, enableUnit]

@[simp] theorem daemonReload_ne_enableUnit : daemonReload ≠ enableUnit := by decide

theorem performed_run (program : String) (args : List String) :
    Performed env seed h (.run program args) (runProgram env h program args) := by
  simp only [runProgram]
  generalize haction : Action.run program args = action
  have hfiles (path : String) : wrote env seed (h.user.getD env.newIds) path action = none :=
    haction ▸ rfl
  have hdirs (path : String) : made (h.user.getD env.newIds) path action = none := haction ▸ rfl
  have hinstalls : action.installs = false := haction ▸ rfl
  -- The programs are told apart in the order in which they are asked for.
  rcases em (action = runSysusers env.layout) with rfl | hsysusers
  · constructor <;> simp [hfiles, hdirs, hinstalls]
  rcases em (action = daemonReload) with rfl | hreload
  · constructor <;> simp [hfiles, hdirs, hinstalls, hsysusers]
  rcases em (action = enableUnit) with rfl | henable
  · constructor <;> simp [hfiles, hdirs, hinstalls, hsysusers, hreload]
  rcases em (action = restartUnit) with rfl | hrestart
  · constructor <;> simp [hfiles, hdirs, hinstalls, hsysusers, hreload, henable]
  rcases em (action = startUnit) with rfl | hstart
  · constructor <;> simp [hfiles, hdirs, hinstalls, hsysusers, hreload, henable, hrestart]
  constructor <;> simp [hfiles, hdirs, hinstalls, hsysusers, hreload, henable, hrestart, hstart]

/-- **What an action that succeeds does**, unless it removes a file. -/
theorem performed {a : Action} (hkeeps : ∀ path, a ≠ .removeFile path)
    (hdid : perform env seed h a = .ok h') : Performed env seed h a h' := by
  cases a with
  | installBinary source target =>
    cases hdid
    constructor <;> simp [wrote, made, Action.installs, runSysusers, daemonReload, enableUnit]
  | makeDir path mode owner =>
    -- whoever is to own the directory has to be known, here and below
    simp only [perform] at hdid
    split at hdid
    · cases hdid
    · next ids hids =>
      cases hdid
      have howner := idsOf_ok hids env.newIds
      constructor <;> simp [wrote, made, Action.installs, runSysusers, daemonReload, enableUnit]
      intro target
      rw [Map.get_insert]
      by_cases htarget : path = target
      · simp [htarget, howner]
      · simp [htarget, Ne.symm htarget]
  | writeFile path content mode owner =>
    simp only [perform] at hdid
    split at hdid
    · cases hdid
    · next ids hids =>
      cases hdid
      have howner := idsOf_ok hids env.newIds
      constructor <;> simp [wrote, made, Action.installs, runSysusers, daemonReload, enableUnit,
        Host.write]
      intro target
      rw [Map.get_insert]
      by_cases htarget : path = target
      · simp [htarget, howner]
      · simp [htarget, Ne.symm htarget]
  | makePair certFile keyFile names =>
    -- the pair is made before its owner is looked up
    simp only [perform] at hdid
    split at hdid
    · cases hdid
    · next pair hpair =>
      split at hdid
      · cases hdid
      · next ids hids =>
        cases hdid
        have howner : ids = h.user.getD env.newIds := idsOf_ok hids env.newIds
        constructor <;> simp [wrote, made, Action.installs, runSysusers, daemonReload, enableUnit,
          Host.write, hpair]
        intro target
        rw [Map.get_insert, Map.get_insert]
        by_cases hcert : certFile = target
        · simp [hcert, howner]
        · by_cases hkey : keyFile = target
          · simp [hcert, Ne.symm hcert, hkey, howner]
          · simp [hcert, Ne.symm hcert, hkey, Ne.symm hkey]
  | removeFile path => exact absurd rfl (hkeeps path)
  | run program args =>
    cases hdid
    exact performed_run program args

/-! ## What a plan has left where it stops -/

section Left
variable (env : Setting) (found : Found) (seed : Nat)

/-- The action of a plan that writes at a path. -/
def writer (path : String) : Option Action :=
  if path = env.layout.sysusers then some (writeSysusers env)
  else if path = env.layout.configFile then some (writeConfig env)
  else if path = env.layout.unit then some (writeUnit env)
  else
    match found.tls with
    | none => none
    | some (certFile, keyFile) =>
      if path = certFile ∨ path = keyFile then
        some (.makePair certFile keyFile env.wanted.names)
      else none

/-- The file at a path that some actions of a plan leave. -/
def written (ids : Ids) (done : List Action) (path : String) : Option HostFile :=
  (writer env found path).bind fun a => if a ∈ done then wrote env seed ids path a else none

/-- A host on which some actions of a plan have been done, from what it was before. -/
structure Reached (h : Host) (done : List Action) (h' : Host) : Prop where
  files : ∀ path : String, h'.files[path]? =
    (written env found seed (h.user.getD env.newIds) done path).or h.files[path]?
  dirs : ∀ path : String, h'.dirs[path]? =
    if makeIt path ∈ done then some (0o700, h.user.getD env.newIds) else h.dirs[path]?
  binary : h'.binary = if done.any Action.installs then some env.image else h.binary
  user : h'.user =
    if runSysusers env.layout ∈ done then some (h.user.getD env.newIds) else h.user
  loaded : h'.loaded =
    if daemonReload ∈ done ∨ enableUnit ∈ done ∧ env.enableLoads then some env.unitText
    else h.loaded
  enabled : h'.enabled = (h.enabled || decide (enableUnit ∈ done))
  service : h'.service = h.service

end Left

section
variable {found : Found} {a : Action}

theorem keeps_of_mem (ha : a ∈ bodyActions env found) (path : String) : a ≠ .removeFile path := by
  rintro rfl
  cases mem_bodyActions.mp ha

theorem path_of_wrote {ids : Ids} {path target content : String} {mode : Nat} {owner : Owner}
    (hwrote : wrote env seed ids path (.writeFile target content mode owner) ≠ none) :
    path = target := by
  by_contra hother
  exact hwrote (if_neg hother)

theorem path_of_wrote_pair {ids : Ids} {path certFile keyFile : String} {names : List String}
    (hwrote : wrote env seed ids path (.makePair certFile keyFile names) ≠ none) :
    path = certFile ∨ path = keyFile := by
  by_contra hother
  rw [not_or] at hother
  apply hwrote
  simp only [wrote]
  cases env.selfSigned names with
  | error e => rfl
  | ok pair => simp only [if_neg hother.1, if_neg hother.2]

theorem writer_sysusers : writer env found env.layout.sysusers = some (writeSysusers env) :=
  if_pos rfl

theorem writer_config (hapart : Apart env.layout found.tls) :
    writer env found env.layout.configFile = some (writeConfig env) := by
  have hfiles := hapart.files
  simp only [List.nodup_cons, List.mem_cons, not_or] at hfiles
  exact (if_neg (Ne.symm hfiles.2.1.1)).trans (if_pos rfl)

theorem writer_unit (hapart : Apart env.layout found.tls) :
    writer env found env.layout.unit = some (writeUnit env) := by
  have hfiles := hapart.files
  simp only [List.nodup_cons, List.mem_cons, not_or] at hfiles
  exact (if_neg hfiles.1.1).trans ((if_neg hfiles.1.2.1).trans (if_pos rfl))

theorem writer_pair {certFile keyFile path : String} (hapart : Apart env.layout found.tls)
    (htls : found.tls = some (certFile, keyFile)) (hpath : path = certFile ∨ path = keyFile) :
    writer env found path = some (.makePair certFile keyFile env.wanted.names) := by
  have hmem : path ∈ [certFile, keyFile] := by simpa using hpath
  have hother := hapart.pair _ htls path hmem
  simp only [List.mem_append, List.mem_cons, not_or] at hother
  obtain ⟨⟨h1, h2, h3, -⟩, -⟩ := hother
  unfold writer
  rw [if_neg h2, if_neg h3, if_neg h1, htls]
  exact if_pos hpath

/-- A file of the command's own is written by one action only. -/
theorem writer_of_wrote (hapart : Apart env.layout found.tls) (ha : a ∈ bodyActions env found)
    {ids : Ids} {path : String} (hwrote : wrote env seed ids path a ≠ none) :
    writer env found path = some a := by
  cases mem_bodyActions.mp ha with
  | writeSysusers _ => rw [path_of_wrote hwrote, writer_sysusers]
  | writeConfig _ => rw [path_of_wrote hwrote, writer_config hapart]
  | makePair htls _ => exact writer_pair hapart htls (path_of_wrote_pair hwrote)
  | writeUnit _ => rw [path_of_wrote hwrote, writer_unit hapart]
  | installIt _ | runSysusers _ | makeIt _ | daemonReload _ | enableUnit =>
    exact absurd rfl hwrote

/-- What one more action of the plan leaves. -/
theorem written_append (hapart : Apart env.layout found.tls) (ha : a ∈ bodyActions env found)
    (ids : Ids) (done : List Action) (path : String) (base : Option HostFile) :
    (written env found seed ids (done ++ [a]) path).or base =
      (wrote env seed ids path a).or ((written env found seed ids done path).or base) := by
  by_cases hwrote : wrote env seed ids path a = none
  · have hsame : written env found seed ids (done ++ [a]) path =
        written env found seed ids done path := by
      unfold written
      cases hwriter : writer env found path with
      | none => rfl
      | some b =>
        by_cases hb : b = a
        · simp [hb, hwrote]
        · simp [hb]
    rw [hsame, hwrote, Option.none_or]
  · have hwritten : written env found seed ids (done ++ [a]) path =
        wrote env seed ids path a := by
      unfold written
      rw [writer_of_wrote hapart ha hwrote]
      simp
    obtain ⟨file, hfile⟩ := Option.ne_none_iff_exists'.mp hwrote
    rw [hwritten, hfile]
    rfl

theorem made_of_mem (ha : a ∈ bodyActions env found) (ids : Ids) (path : String) :
    made ids path a = if a = makeIt path then some (0o700, ids) else none := by
  by_cases hmakes : a = makeIt path
  · rw [hmakes, if_pos rfl]
    exact if_pos rfl
  rw [if_neg hmakes]
  cases mem_bodyActions.mp ha with
  | makeIt _ =>
    refine if_neg ?_
    rintro rfl
    exact hmakes rfl
  | installIt _ | writeSysusers _ | runSysusers _ | writeConfig _ | makePair _ _ | writeUnit _
  | daemonReload _ | enableUnit => rfl

theorem rank_lt_of_mem (hapart : Apart env.layout found.tls) (ha : a ∈ bodyActions env found) :
    rank env.layout a < 9 :=
  ((ranked_bodyActions hapart).ranks a ha).2

/-- What comes earlier in a plan than one of its actions is done before it. -/
theorem Ranked.mem_done {low high : Nat} {done rest : List Action} {b : Action}
    (hranked : Ranked env.layout low high (done ++ a :: rest)) (hb : b ∈ done ++ a :: rest)
    (hlt : rank env.layout b < rank env.layout a) : b ∈ done := by
  rcases List.mem_append.mp hb with hb | hb
  · exact hb
  rcases List.mem_cons.mp hb with rfl | hb
  · exact absurd hlt (Nat.lt_irrefl _)
  · have hcons := (List.pairwise_append.mp hranked.ordered).2.1
    have hbefore := (List.pairwise_cons.mp hcons).1 b hb
    unfold Before at hbefore
    omega

/-- What is done before an action comes earlier in the plan, or both make directories. -/
theorem Ranked.before {low high : Nat} {done rest : List Action} {b : Action}
    (hranked : Ranked env.layout low high (done ++ a :: rest)) (hb : b ∈ done) :
    Before env.layout b a :=
  (List.pairwise_append.mp hranked.ordered).2.2 b hb a List.mem_cons_self

/-- The unit is in its place by the time it is loaded. -/
theorem unit_written (hapart : Apart env.layout found.tls) {done rest : List Action}
    (hplan : bodyActions env found = done ++ a :: rest) (hloads : 6 < rank env.layout a) :
    writeUnit env ∈ done ∨ found.unit = .same := by
  by_cases hunit : found.unit = .same
  · exact .inr hunit
  · have hranked := hplan ▸ ranked_bodyActions hapart
    have hmem := hplan ▸ mem_bodyActions.mpr (.writeUnit hunit)
    refine .inl (hranked.mem_done hmem ?_)
    rw [rank_writeUnit hapart]
    exact hloads

namespace Reached
variable {done rest : List Action}

theorem ids (hreached : Reached env found seed h done h') :
    h'.user.getD env.newIds = h.user.getD env.newIds := by
  rw [hreached.user]
  split <;> rfl

/-- A file of the command's own, as it is read. -/
theorem read_own {path content : String} {mode : Nat} {owner : Owner}
    (hreached : Reached env found seed h done h')
    (hwriter : writer env found path = some (.writeFile path content mode owner)) :
    h'.read path =
      if .writeFile path content mode owner ∈ done then some content else h.read path := by
  have hfile := hreached.files path
  rw [written, hwriter, Option.bind_some] at hfile
  unfold Host.read
  by_cases hdone : .writeFile path content mode owner ∈ done
  · rw [if_pos hdone, wrote, if_pos rfl] at hfile
    rw [hfile, if_pos hdone]
    rfl
  · rw [if_neg hdone] at hfile
    rw [hfile, if_neg hdone]
    rfl

theorem read_unit (hapart : Apart env.layout found.tls)
    (hthere : found.unit = .same → h.read env.layout.unit = some env.unitText)
    (hreached : Reached env found seed h done h')
    (hunit : writeUnit env ∈ done ∨ found.unit = .same) :
    h'.read env.layout.unit = some env.unitText := by
  rw [hreached.read_own (writer_unit hapart)]
  split
  · rfl
  · next hnot => exact hthere (hunit.resolve_left hnot)

/-- **One more action.** -/
theorem step (hapart : Apart env.layout found.tls)
    (hthere : found.unit = .same → h.read env.layout.unit = some env.unitText)
    {h'' : Host} (hplan : bodyActions env found = done ++ a :: rest)
    (hreached : Reached env found seed h done h')
    (hdid : perform env seed h' a = .ok h'') : Reached env found seed h (done ++ [a]) h'' := by
  have ha : a ∈ bodyActions env found := by
    rw [hplan]
    simp
  have hperformed := performed (keeps_of_mem ha) hdid
  have hids := hreached.ids
  have hlast := rank_lt_of_mem hapart ha
  constructor
  · intro path
    rw [hperformed.files, hreached.files, hids, written_append hapart ha]
  · intro path
    rw [hperformed.dirs, hids, made_of_mem ha, hreached.dirs]
    by_cases hmakes : a = makeIt path
    · simp [hmakes]
    · simp [hmakes, Ne.symm hmakes]
  · rw [hperformed.binary, hreached.binary, List.any_append, List.any_cons, List.any_nil]
    cases a.installs <;> simp
  · rw [hperformed.user, hids, hreached.user]
    by_cases hrun : a = runSysusers env.layout
    · simp [hrun]
    · simp [hrun, Ne.symm hrun]
  -- what systemd has loaded: only a step of rank 7 or 8 loads, and the unit stands by then
  · rw [hperformed.loaded]
    by_cases hloads : a = daemonReload ∨ a = enableUnit ∧ env.enableLoads = true
    · have hrank : 6 < rank env.layout a := by
        rcases hloads with rfl | ⟨rfl, -⟩
        · rw [rank_daemonReload]
          decide
        · rw [rank_enableUnit]
          decide
      rw [if_pos hloads, hreached.read_unit hapart hthere (unit_written hapart hplan hrank)]
      refine (if_pos ?_).symm
      rcases hloads with rfl | ⟨rfl, henable⟩
      · exact .inl (by simp)
      · exact .inr ⟨by simp, henable⟩
    · rw [if_neg hloads, hreached.loaded]
      have hsame : (daemonReload ∈ done ++ [a] ∨ enableUnit ∈ done ++ [a] ∧ env.enableLoads) ↔
          (daemonReload ∈ done ∨ enableUnit ∈ done ∧ env.enableLoads) := by
        simp only [List.mem_append, List.mem_singleton]
        grind
      simp only [hsame]
  · rw [hperformed.enabled, hreached.enabled]
    simp [Bool.or_assoc, eq_comm]
  -- the service is neither started nor restarted by the body of a plan
  · rw [← hreached.service]
    refine hperformed.service ?_ ?_
    · rintro rfl
      rw [rank_startUnit] at hlast
      exact absurd hlast (Nat.lt_irrefl 9)
    · rintro rfl
      rw [rank_restartUnit] at hlast
      exact absurd hlast (Nat.lt_irrefl 9)

end Reached

/-- **What a plan has left where it stops.** -/
theorem reached (hapart : Apart env.layout found.tls)
    (hthere : found.unit = .same → h.read env.layout.unit = some env.unitText)
    {done rest : List Action} (hplan : bodyActions env found = done ++ rest)
    (hdid : performAll env seed h done = .ok h') : Reached env found seed h done h' := by
  induction done using List.reverseRecOn generalizing rest h' with
  | nil =>
    cases hdid
    have hnothing (ids : Ids) (path : String) : written env found seed ids [] path = none := by
      unfold written
      cases writer env found path <;> rfl
    constructor <;> simp [hnothing]
  | append_singleton done a ih =>
    obtain ⟨hmid, hfirst, hlast⟩ := performAll_append_ok hdid
    rw [performAll_singleton] at hlast
    rw [List.append_assoc, List.singleton_append] at hplan
    exact (ih hplan hfirst).step hapart hthere hplan hlast

end

/-! ## When a plan succeeds -/

/-- Makes a pair. -/
def Action.makesPair : Action → Bool
  | .makePair _ _ _ => true
  | _ => false

section
variable {found : Found}

/-- A pair can be made for the names, if one is to be made. -/
def PairReady (env : Setting) (found : Found) : Prop :=
  found.makesPair env = true → ∃ pair, env.selfSigned env.wanted.names = .ok pair

theorem perform_ok (seed : Nat) {a : Action} (ha : a ∈ bodyActions env found)
    (hpair : PairReady env found)
    (huser : h.user ≠ none) : ∃ h', perform env seed h a = .ok h' := by
  obtain ⟨ids, hids⟩ := Option.ne_none_iff_exists'.mp huser
  have howner (owner : Owner) : ∃ ids, idsOf h owner = .ok ids := by
    cases owner with
    | root => exact ⟨_, rfl⟩
    | service => exact ⟨ids, by rw [idsOf, hids]⟩
  cases a with
  | installBinary source target => exact ⟨_, rfl⟩
  | makeDir path mode owner =>
    obtain ⟨ids, hids⟩ := howner owner
    exact ⟨_, by rw [perform, hids]⟩
  | writeFile path content mode owner =>
    obtain ⟨ids, hids⟩ := howner owner
    exact ⟨_, by rw [perform, hids]⟩
  | makePair certFile keyFile names =>
    cases mem_bodyActions.mp ha with
    | makePair _ hmakes =>
      obtain ⟨pair, hpair⟩ := hpair hmakes
      obtain ⟨ids, hids⟩ := howner .service
      exact ⟨_, by simp only [perform, hpair, hids]; rfl⟩
  | removeFile path => exact ⟨_, rfl⟩
  | run program args => exact ⟨_, rfl⟩

/-- Once the user is there, the rest succeeds. -/
theorem performAll_ok (seed : Nat) (hpair : PairReady env found) {actions : List Action}
    (hplanned : ∀ a ∈ actions, a ∈ bodyActions env found) (huser : h.user ≠ none) :
    ∃ h', performAll env seed h actions = .ok h' := by
  induction actions generalizing h with
  | nil => exact ⟨h, rfl⟩
  | cons a rest ih =>
    rw [List.forall_mem_cons] at hplanned
    obtain ⟨h', hdid⟩ := perform_ok seed hplanned.1 hpair huser
    have hstays : h'.user ≠ none := by
      rw [(performed (keeps_of_mem hplanned.1) hdid).user]
      split
      · exact Option.some_ne_none _
      · exact huser
    obtain ⟨h'', hrest⟩ := ih hplanned.2 hstays
    exact ⟨h'', by rw [performAll_cons, hdid]; exact hrest⟩

/-- An action that was reached and done. -/
theorem perform_of_mem {actions : List Action} {a : Action} (ha : a ∈ actions)
    (hdid : performAll env seed h actions = .ok h') :
    ∃ done rest h1 h2, actions = done ++ a :: rest ∧ performAll env seed h done = .ok h1 ∧
      perform env seed h1 a = .ok h2 := by
  obtain ⟨done, rest, rfl⟩ := List.append_of_mem ha
  obtain ⟨h1, hfirst, hlast⟩ := performAll_append_ok hdid
  rw [performAll_cons] at hlast
  cases hone : perform env seed h1 a with
  | error e =>
    rw [hone] at hlast
    cases hlast
  | ok h2 => exact ⟨done, rest, h1, h2, rfl, hfirst, hone⟩

theorem sysusers_of_mem (ha : runSysusers env.layout ∈ bodyActions env found) :
    found.sysusers ≠ .same := by
  generalize haction : runSysusers env.layout = a at ha
  cases mem_bodyActions.mp ha with
  | runSysusers hsysusers => exact hsysusers
  | daemonReload _ => exact absurd haction (runSysusers_ne_daemonReload _)
  | enableUnit => exact absurd haction (runSysusers_ne_enableUnit _)
  | installIt _ | writeSysusers _ | makeIt _ | writeConfig _ | makePair _ _ | writeUnit _ =>
    cases haction

/-- The user is there once it was asked for. -/
theorem performAll_sysusers (seed : Nat) (h : Host) (hnot : found.sysusers ≠ .same) :
    ∃ h', performAll env seed h (binaryActions env found ++ sysusersActions env found) = .ok h' ∧
      h'.user ≠ none := by
  have hbinary : ∃ h1, performAll env seed h (binaryActions env found) = .ok h1 := by
    unfold binaryActions
    split
    · exact ⟨_, rfl⟩
    · exact ⟨h, rfl⟩
  obtain ⟨h1, hfirst⟩ := hbinary
  have hrun (h2 : Host) :
      (runProgram env h2 "systemd-sysusers" [env.layout.sysusers]).user ≠ none := by
    unfold runProgram
    exact (if_pos (c := Action.run _ _ = runSysusers _) rfl) ▸ Option.some_ne_none _
  rw [performAll_append, hfirst, sysusersActions, if_pos hnot]
  exact ⟨_, rfl, hrun _⟩

theorem tls_of_makesPair (hmakes : found.makesPair env = true) :
    ∃ paths, found.tls = some paths := by
  unfold Found.makesPair Found.paired at hmakes
  cases htls : found.tls with
  | none => simp [htls] at hmakes
  | some paths => exact ⟨paths, rfl⟩

/-- **When a plan succeeds**: the user is there or asked for, and a pair can be made if one is
to be. -/
theorem body_ok_iff (seed : Nat) (hapart : Apart env.layout found.tls)
    (hthere : found.unit = .same → h.read env.layout.unit = some env.unitText) :
    (∃ h', performAll env seed h (bodyActions env found) = .ok h') ↔
      (h.user ≠ none ∨ found.sysusers ≠ .same) ∧ PairReady env found := by
  constructor
  -- the first directory needs the user: known before, or made by the plan
  · rintro ⟨h', hdid⟩
    constructor
    · have hmem : makeIt env.layout.configDir ∈ bodyActions env found :=
        mem_bodyActions.mpr (.makeIt List.mem_cons_self)
      obtain ⟨done, rest, h1, h2, hplan, hfirst, hone⟩ := perform_of_mem hmem hdid
      have huser : h1.user ≠ none := by
        intro hnone
        rw [makeIt, perform, idsOf, hnone] at hone
        cases hone
      have hreached := reached hapart hthere hplan hfirst
      by_cases hrun : runSysusers env.layout ∈ done
      · have hbody : runSysusers env.layout ∈ bodyActions env found := by
          rw [hplan]
          exact List.mem_append_left _ hrun
        exact .inr (sysusers_of_mem hbody)
      · rw [hreached.user, if_neg hrun] at huser
        exact .inl huser
    -- the pair is asked for when it is made
    · intro hmakes
      obtain ⟨⟨certFile, keyFile⟩, htls⟩ := tls_of_makesPair hmakes
      have hmem : .makePair certFile keyFile env.wanted.names ∈ bodyActions env found :=
        mem_bodyActions.mpr (.makePair htls hmakes)
      obtain ⟨_, _, h1, _, -, -, hone⟩ := perform_of_mem hmem hdid
      cases hpair : env.selfSigned env.wanted.names with
      | error e =>
        simp only [perform, hpair] at hone
        cases hone
      | ok pair => exact ⟨pair, rfl⟩
  · rintro ⟨huser, hpair⟩
    -- without the user the plan runs systemd-sysusers before anything is owned
    by_cases hhas : h.user = none
    · obtain ⟨h1, hfirst, hhas⟩ := performAll_sysusers seed h
        (huser.resolve_left (not_not_intro hhas))
      have hlater : ∀ a ∈ dirActions env ++ configActions env found ++ pairActions env found ++
          unitActions env found ++ [enableUnit], a ∈ bodyActions env found := by
        intro a ha
        simp only [bodyActions, List.mem_append] at ha ⊢
        tauto
      obtain ⟨h', hrest⟩ := performAll_ok seed hpair hlater hhas
      refine ⟨h', ?_⟩
      have hsplit : bodyActions env found =
        (binaryActions env found ++ sysusersActions env found) ++
          (dirActions env ++ configActions env found ++ pairActions env found ++
            unitActions env found ++ [enableUnit]) := by
        simp only [bodyActions, List.append_assoc]
      rw [hsplit, performAll_append, hfirst]
      exact hrest
    · exact performAll_ok seed hpair (fun _ ha => ha) hhas

end

end

end Service

end Passalong
