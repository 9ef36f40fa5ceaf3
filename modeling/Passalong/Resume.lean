import Passalong.Plans

/-!
# An interrupted install (`service/mod.rs`)

The error of an install that stops says that running the command again takes up where it
stopped. The second run plans anew from what it finds, where a file that is written stands
for all that should have followed it: a `sysusers.d` file for the user, a unit for its
loading, a binary and a unit for the restart that makes a running service use them.
-/

namespace Passalong

open Lib

namespace Service

section
variable {env : Setting} {seed : Nat} {h h' : Host} {found : Found}

/-! ## A plan from its body -/

/-- The start at the end of a plan. -/
def Host.started (env : Setting) (found : Found) (h : Host) : Host :=
  if found.starts env then
    { h with
      service := some (if found.changed env then h.current else h.service.getD h.current) }
  else h

theorem performAll_start : performAll env seed h (startActions env found) =
    .ok (h.started env found) := by
  unfold startActions Host.started
  by_cases hstarts : found.starts env = true
  · rw [if_pos hstarts, if_pos hstarts]
    by_cases hchanged : found.changed env = true
    · rw [if_pos hchanged, if_pos hchanged]
      rfl
    · rw [if_neg hchanged, if_neg hchanged]
      rfl
  · rw [if_neg hstarts, if_neg hstarts]
    rfl

/-- A plan succeeds as far as its body does. -/
theorem performAll_plan : performAll env seed h (planActions env found) =
    match performAll env seed h (bodyActions env found) with
    | .error e => .error e
    | .ok h' => .ok (h'.started env found) := by
  have hplan : planActions env found = bodyActions env found ++ startActions env found := rfl
  rw [hplan, performAll_append]
  cases performAll env seed h (bodyActions env found) with
  | error e => rfl
  | ok h' => exact performAll_start

theorem performAll_plan_ok : performAll env seed h (planActions env found) = .ok h' ↔
    ∃ body, performAll env seed h (bodyActions env found) = .ok body ∧
      h' = body.started env found := by
  rw [performAll_plan]
  cases performAll env seed h (bodyActions env found) with
  | error e => simp
  | ok body => simp [eq_comm]

/-- Wherever a plan stops, what is done is of its body. -/
theorem done_of_split {done rest : List Action} {failing : Action}
    (hsplit : planActions env found = done ++ failing :: rest) :
    ∃ todo, bodyActions env found = done ++ todo ∧
      failing :: rest = todo ++ startActions env found := by
  have hplan : bodyActions env found ++ startActions env found = done ++ failing :: rest := hsplit
  rcases List.append_eq_append_iff.mp hplan with ⟨more, hdone, hstart⟩ | ⟨todo, hbody, hrest⟩
  · have hlength : (startActions env found).length ≤ 1 := by
      unfold startActions
      split <;> simp
    have hnil : more = [] := by
      rw [hstart, List.length_append, List.length_cons] at hlength
      exact List.eq_nil_of_length_eq_zero (by omega)
    subst hnil
    exact ⟨[], by simpa using hdone.symm, by simpa using hstart.symm⟩
  · exact ⟨todo, hbody, hrest⟩

/-- When there is a plan, and what it is. -/
theorem planInstall_ok {plan : Plan} (hplan : planInstall env found = .ok plan) :
    plan.actions = planActions env found ∧ found.unit ≠ .foreign ∧ found.sysusers ≠ .foreign ∧
      (found.tls ≠ none → found.certExists = found.keyExists) := by
  unfold planInstall at hplan
  split at hplan
  · cases hplan
  next hunit =>
  split at hplan
  · cases hplan
  next hsysusers =>
  split at hplan
  · next htls =>
    cases hplan
    exact ⟨rfl, hunit, hsysusers, fun h => absurd htls h⟩
  · split at hplan
    · cases hplan
    · next hpair =>
      cases hplan
      exact ⟨rfl, hunit, hsysusers, fun _ => not_not.mp hpair⟩

theorem planInstall_of (hunit : found.unit ≠ .foreign) (hsysusers : found.sysusers ≠ .foreign)
    (hpair : found.tls ≠ none → found.certExists = found.keyExists) :
    ∃ plan, planInstall env found = .ok plan ∧ plan.actions = planActions env found := by
  unfold planInstall
  rw [if_neg hunit, if_neg hsysusers]
  cases htls : found.tls with
  | none => exact ⟨_, rfl, rfl⟩
  | some pair =>
    have hboth := hpair (htls ▸ Option.some_ne_none pair)
    simp only [if_neg (not_not_intro hboth)]
    exact ⟨_, rfl, rfl⟩

/-! ## What the second run finds -/

/-- What is found once some actions of a plan are done. -/
def Found.again (env : Setting) (found : Found) (done : List Action) : Found :=
  { found with
    binaryInstalled := found.binaryInstalled || done.any Action.installs
    unit := if writeUnit env ∈ done then .same else found.unit
    sysusers := if writeSysusers env ∈ done then .same else found.sysusers
    configExists := found.configExists || decide (writeConfig env ∈ done)
    certExists := found.certExists || done.any Action.makesPair
    keyExists := found.keyExists || done.any Action.makesPair }

theorem read_eq_of_files {path : String} (hsame : h'.files[path]? = h.files[path]?) :
    h'.read path = h.read path := by
  unfold Host.read
  rw [hsame]

theorem has_eq (path : String) :
    h.has path = (h.files[path]?.isSome || h.dirs[path]?.isSome) := by
  unfold Host.has
  rw [Std.ExtTreeMap.contains_eq_isSome_getElem?, Std.ExtTreeMap.contains_eq_isSome_getElem?]

theorem existing_own {done : Prop} [Decidable done] {content : String} {there : Option String} :
    Existing.of (if done then some content else there) content =
      if done then .same else Existing.of there content := by
  by_cases hdone : done
  · rw [if_pos hdone, if_pos hdone]
    exact if_pos rfl
  · rw [if_neg hdone, if_neg hdone]

section
variable {done : List Action}

/-- Whether a file of the command's own is there. -/
theorem Reached.has_own {path : String} {a : Action}
    (hreached : Reached env found seed h done h') (hwriter : writer env found path = some a)
    (hwrote : a ∈ done → wrote env seed (h.user.getD env.newIds) path a ≠ none)
    (hdir : makeIt path ∉ done) : h'.has path = (h.has path || decide (a ∈ done)) := by
  have hfile := hreached.files path
  have hdirs := hreached.dirs path
  rw [written, hwriter, Option.bind_some] at hfile
  rw [if_neg hdir] at hdirs
  rw [has_eq, has_eq, hfile, hdirs]
  by_cases hdone : a ∈ done
  · obtain ⟨file, hsome⟩ := Option.ne_none_iff_exists'.mp (hwrote hdone)
    simp [hdone, hsome]
  · simp [hdone]

end

/-- A pair is made by one action only. -/
theorem any_makesPair {done : List Action} (hplanned : ∀ a ∈ done, a ∈ bodyActions env found) :
    done.any Action.makesPair = true ↔
      ∃ certFile keyFile, found.tls = some (certFile, keyFile) ∧
        .makePair certFile keyFile env.wanted.names ∈ done := by
  constructor
  · intro hany
    obtain ⟨a, ha, hmakes⟩ := List.any_eq_true.mp hany
    cases mem_bodyActions.mp (hplanned a ha) with
    | makePair htls _ => exact ⟨_, _, htls, ha⟩
    | installIt _ | writeSysusers _ | runSysusers _ | makeIt _ | writeConfig _ | writeUnit _
    | daemonReload _ | enableUnit => cases hmakes
  · rintro ⟨certFile, keyFile, -, hmem⟩
    exact List.any_eq_true.mpr ⟨_, hmem, rfl⟩

/-- A file of the pair is there if it was, or if the pair is made. -/
theorem Reached.has_pair (hapart : Apart env.layout found.tls) (hpair : PairReady env found)
    {done : List Action} (hplanned : ∀ a ∈ done, a ∈ bodyActions env found)
    (hreached : Reached env found seed h done h') {certFile keyFile path : String}
    (htls : found.tls = some (certFile, keyFile)) (hpath : path = certFile ∨ path = keyFile) :
    h'.has path = (h.has path || done.any Action.makesPair) := by
  have hwriter := writer_pair hapart htls hpath
  have hdir : makeIt path ∉ done := by
    intro hmem
    have hmem' : path ∈ [certFile, keyFile] := by simpa using hpath
    cases mem_bodyActions.mp (hplanned _ hmem) with
    | makeIt hdir => exact hapart.pair _ htls path hmem' (List.mem_append_right _ hdir)
  have hwrote (hmem : .makePair certFile keyFile env.wanted.names ∈ done) :
      wrote env seed (h.user.getD env.newIds) path
        (.makePair certFile keyFile env.wanted.names) ≠ none := by
    cases mem_bodyActions.mp (hplanned _ hmem) with
    | makePair _ hmakes =>
      obtain ⟨pair, hself⟩ := hpair hmakes
      simp only [wrote, hself]
      rcases em (path = certFile) with hcert | hcert
      · rw [if_pos hcert]
        exact Option.some_ne_none _
      · rw [if_neg hcert, if_pos (hpath.resolve_left hcert)]
        exact Option.some_ne_none _
  rw [hreached.has_own hwriter hwrote hdir]
  congr 1
  rw [Bool.eq_iff_iff, decide_eq_true_iff, any_makesPair hplanned]
  constructor
  · exact fun hmem => ⟨certFile, keyFile, htls, hmem⟩
  · rintro ⟨_, _, htls', hmem⟩
    cases htls.symm.trans htls'
    exact hmem

theorem Reached.any_has (hapart : Apart env.layout found.tls) (hpair : PairReady env found)
    {done : List Action} (hplanned : ∀ a ∈ done, a ∈ bodyActions env found)
    (hreached : Reached env found seed h done h') (side : String × String → String)
    (hside : ∀ paths, side paths = paths.1 ∨ side paths = paths.2) :
    (found.tls.any fun paths => h'.has (side paths)) =
      ((found.tls.any fun paths => h.has (side paths)) || done.any Action.makesPair) := by
  cases htls : found.tls with
  | none =>
    have hnone : done.any Action.makesPair = false := by
      refine Bool.eq_false_iff.mpr fun hany => ?_
      obtain ⟨_, _, hsome, -⟩ := (any_makesPair hplanned).mp hany
      cases htls.symm.trans hsome
    rw [hnone]
    rfl
  | some paths => exact hreached.has_pair hapart hpair hplanned htls (hside paths)

/-- The configuration is there if it was, or if it is written. -/
theorem Reached.has_config (hapart : Apart env.layout found.tls) {done : List Action}
    (hplanned : ∀ a ∈ done, a ∈ bodyActions env found)
    (hreached : Reached env found seed h done h') :
    h'.has env.layout.configFile =
      (h.has env.layout.configFile || decide (writeConfig env ∈ done)) := by
  refine hreached.has_own (writer_config hapart) ?_ ?_
  · intro _
    rw [writeConfig, wrote, if_pos rfl]
    exact Option.some_ne_none _
  · intro hmem
    cases mem_bodyActions.mp (hplanned _ hmem) with
    | makeIt hdir => exact hapart.config hdir

/-- Why a file is written. -/
theorem why_written {path content : String} {mode : Nat} {owner : Owner}
    (ha : .writeFile path content mode owner ∈ bodyActions env found) :
    path = env.layout.sysusers ∧ found.sysusers ≠ .same ∨
      path = env.layout.configFile ∧ found.configExists = false ∨
        path = env.layout.unit ∧ found.unit ≠ .same := by
  generalize haction : Action.writeFile path content mode owner = a at ha
  cases mem_bodyActions.mp ha with
  | writeSysusers hsysusers => exact .inl ⟨(Action.writeFile.inj haction).1, hsysusers⟩
  | writeConfig hconfig => exact .inr (.inl ⟨(Action.writeFile.inj haction).1, hconfig⟩)
  | writeUnit hunit => exact .inr (.inr ⟨(Action.writeFile.inj haction).1, hunit⟩)
  | installIt _ | runSysusers _ | makeIt _ | makePair _ _ | daemonReload _ | enableUnit =>
    cases haction

theorem writeSysusers_mem (hapart : Apart env.layout found.tls) :
    writeSysusers env ∈ bodyActions env found ↔ found.sysusers ≠ .same := by
  have hfiles := hapart.files
  simp only [List.nodup_cons, List.mem_cons, not_or] at hfiles
  refine ⟨fun ha => ?_, fun hnot => mem_bodyActions.mpr (.writeSysusers hnot)⟩
  rcases why_written ha with ⟨-, hnot⟩ | ⟨hpath, -⟩ | ⟨hpath, -⟩
  · exact hnot
  · exact absurd hpath hfiles.2.1.1
  · exact absurd hpath.symm hfiles.1.1

theorem writeConfig_mem (hapart : Apart env.layout found.tls) :
    writeConfig env ∈ bodyActions env found ↔ found.configExists = false := by
  have hfiles := hapart.files
  simp only [List.nodup_cons, List.mem_cons, not_or] at hfiles
  refine ⟨fun ha => ?_, fun hnot => mem_bodyActions.mpr (.writeConfig hnot)⟩
  rcases why_written ha with ⟨hpath, -⟩ | ⟨-, hnot⟩ | ⟨hpath, -⟩
  · exact absurd hpath.symm hfiles.2.1.1
  · exact hnot
  · exact absurd hpath.symm hfiles.1.2.1

theorem writeUnit_mem (hapart : Apart env.layout found.tls) :
    writeUnit env ∈ bodyActions env found ↔ found.unit ≠ .same := by
  have hfiles := hapart.files
  simp only [List.nodup_cons, List.mem_cons, not_or] at hfiles
  refine ⟨fun ha => ?_, fun hnot => mem_bodyActions.mpr (.writeUnit hnot)⟩
  rcases why_written ha with ⟨hpath, -⟩ | ⟨hpath, -⟩ | ⟨-, hnot⟩
  · exact absurd hpath hfiles.1.1
  · exact absurd hpath hfiles.1.2.1
  · exact hnot

/-- What a look finds. -/
theorem look_ok (hlook : look env h = .ok found) :
    pairOf env ((h.read env.layout.configFile).getD env.wanted.initialConfig) = .ok found.tls ∧
      found = {
        running := env.running
        binaryInstalled := h.binary = some env.image
        unit := Existing.of (h.read env.layout.unit) env.unitText
        sysusers := Existing.of (h.read env.layout.sysusers) env.sysusersText
        configExists := (h.read env.layout.configFile).isSome || h.has env.layout.configFile
        tls := found.tls
        certExists := found.tls.any fun pair => h.has pair.1
        keyExists := found.tls.any fun pair => h.has pair.2 } := by
  unfold look at hlook
  simp only at hlook
  split at hlook
  · cases hlook
  · next htls =>
    cases hlook
    exact ⟨htls, rfl⟩

theorem look_of {tls : Option (String × String)}
    (htls : pairOf env ((h.read env.layout.configFile).getD env.wanted.initialConfig) = .ok tls) :
    look env h = .ok {
        running := env.running
        binaryInstalled := h.binary = some env.image
        unit := Existing.of (h.read env.layout.unit) env.unitText
        sysusers := Existing.of (h.read env.layout.sysusers) env.sysusersText
        configExists := (h.read env.layout.configFile).isSome || h.has env.layout.configFile
        tls
        certExists := tls.any fun pair => h.has pair.1
        keyExists := tls.any fun pair => h.has pair.2 } := by
  unfold look
  simp only [htls]

/-- The unit that is not to be written is there. -/
theorem unit_of_same (hlook : look env h = .ok found) (hsame : found.unit = .same) :
    h.read env.layout.unit = some env.unitText := by
  rw [(look_ok hlook).2] at hsame
  unfold Existing.of at hsame
  split at hsame
  · cases hsame
  · next there hread =>
    split at hsame
    · next heq => rw [hread, heq]
    · split at hsame <;> cases hsame

/-- **The second run finds what the first one has done.** -/
theorem look_again (hapart : Apart env.layout found.tls) (hlook : look env h = .ok found)
    (hpair : PairReady env found) {done : List Action}
    (hplanned : ∀ a ∈ done, a ∈ bodyActions env found)
    (hreached : Reached env found seed h done h') :
    look env h' = .ok (found.again env done) := by
  obtain ⟨htls, hfound⟩ := look_ok hlook
  have hconfig := hreached.read_own (writer_config hapart)
  have htext : (h'.read env.layout.configFile).getD env.wanted.initialConfig =
      (h.read env.layout.configFile).getD env.wanted.initialConfig := by
    rw [hconfig]
    split
    · next hdone =>
      have hnot := (writeConfig_mem hapart).mp (hplanned _ hdone)
      rw [hfound] at hnot
      simp only [Bool.or_eq_false_iff, Option.isSome_eq_false_iff, Option.isNone_iff_eq_none]
        at hnot
      rw [hnot.1]
      rfl
    · rfl
  rw [look_of (htext ▸ htls)]
  unfold Found.again
  rw [hfound]
  congr 2
  · rw [hreached.binary]
    cases done.any Action.installs <;> simp
  · rw [hreached.read_own (writer_unit hapart)]
    exact existing_own
  · rw [hreached.read_own writer_sysusers]
    exact existing_own
  · rw [hconfig, hreached.has_config hapart hplanned, Bool.or_assoc]
    split
    · next hdone => simp [show writeConfig env ∈ done from hdone]
    · rfl
  · exact hreached.any_has hapart hpair hplanned Prod.fst fun _ => .inl rfl
  · exact hreached.any_has hapart hpair hplanned Prod.snd fun _ => .inr rfl

/-! ## What the second run plans -/

section Again
variable {done : List Action}

@[simp] theorem again_tls : (found.again env done).tls = found.tls := rfl

theorem again_installs : (found.again env done).installs env =
    (found.installs env && !done.any Action.installs) := by
  unfold Found.installs Found.again
  simp only [Bool.not_or, Bool.and_assoc]

theorem again_unit : (found.again env done).unit ≠ .same ↔
    found.unit ≠ .same ∧ writeUnit env ∉ done := by
  unfold Found.again
  by_cases hdone : writeUnit env ∈ done <;> simp [hdone]

theorem again_sysusers : (found.again env done).sysusers ≠ .same ↔
    found.sysusers ≠ .same ∧ writeSysusers env ∉ done := by
  unfold Found.again
  by_cases hdone : writeSysusers env ∈ done <;> simp [hdone]

theorem again_paired :
    (found.again env done).paired = (found.paired || done.any Action.makesPair) := by
  unfold Found.paired Found.again
  cases htls : found.tls with
  | none => rfl
  | some paths => cases done.any Action.makesPair <;> simp

theorem again_makesPair : (found.again env done).makesPair env =
    (found.makesPair env && !done.any Action.makesPair) := by
  rw [Found.makesPair, Found.makesPair, again_paired, Bool.not_or, Bool.and_assoc, Bool.and_assoc,
    Bool.and_comm (!env.wanted.names.isEmpty)]

/-- A pair is made where one is missing. -/
theorem makesPair_of_any (hplanned : ∀ a ∈ done, a ∈ bodyActions env found)
    (hany : done.any Action.makesPair = true) : found.makesPair env = true := by
  obtain ⟨_, _, _, hmem⟩ := (any_makesPair hplanned).mp hany
  cases mem_bodyActions.mp (hplanned _ hmem) with
  | makePair _ hmakes => exact hmakes

theorem again_starts (hplanned : ∀ a ∈ done, a ∈ bodyActions env found) :
    (found.again env done).starts env = found.starts env := by
  rw [Found.starts, Found.starts, again_paired, again_makesPair]
  have hmakes := makesPair_of_any hplanned
  cases hany : done.any Action.makesPair with
  | false => simp
  | true => simp [hmakes hany]

theorem planInstall_again (env : Setting) (done : List Action)
    (hunit : found.unit ≠ .foreign) (hsysusers : found.sysusers ≠ .foreign)
    (hpair : found.tls ≠ none → found.certExists = found.keyExists) :
    ∃ plan, planInstall env (found.again env done) = .ok plan ∧
      plan.actions = planActions env (found.again env done) := by
  refine planInstall_of ?_ ?_ ?_
  · simp only [Found.again]
    split
    · exact fun h => by cases h
    · exact hunit
  · simp only [Found.again]
    split
    · exact fun h => by cases h
    · exact hsysusers
  · intro htls
    simp only [Found.again, hpair htls]

/-- What writes a file is planned again unless it is done. -/
theorem mem_again (hplanned : ∀ a ∈ done, a ∈ bodyActions env found) {ids : Ids}
    {path : String} {a : Action} (hwrote : wrote env seed ids path a ≠ none) :
    a ∈ bodyActions env found ↔ a ∈ bodyActions env (found.again env done) ∨ a ∈ done := by
  have hagain {b : Action} : Planned env (found.again env done) b → Planned env found b := by
    intro hb
    cases hb with
    | installIt hinstalls =>
      rw [again_installs, Bool.and_eq_true] at hinstalls
      exact .installIt hinstalls.1
    | writeSysusers hsysusers => exact .writeSysusers (again_sysusers.mp hsysusers).1
    | runSysusers hsysusers => exact .runSysusers (again_sysusers.mp hsysusers).1
    | makeIt hpath => exact .makeIt hpath
    | writeConfig hconfig =>
      exact .writeConfig (Bool.or_eq_false_iff.mp hconfig).1
    | makePair htls hmakes =>
      rw [again_makesPair, Bool.and_eq_true] at hmakes
      exact .makePair htls hmakes.1
    | writeUnit hunit => exact .writeUnit (again_unit.mp hunit).1
    | daemonReload hunit => exact .daemonReload (again_unit.mp hunit).1
    | enableUnit => exact .enableUnit
  constructor
  · intro ha
    by_cases hdone : a ∈ done
    · exact .inr hdone
    refine .inl (mem_bodyActions.mpr ?_)
    cases mem_bodyActions.mp ha with
    | writeSysusers hsysusers => exact .writeSysusers (again_sysusers.mpr ⟨hsysusers, hdone⟩)
    | writeConfig hconfig =>
      exact .writeConfig (Bool.or_eq_false_iff.mpr ⟨hconfig, decide_eq_false hdone⟩)
    | makePair htls hmakes =>
      refine .makePair htls ?_
      rw [again_makesPair, Bool.and_eq_true, Bool.not_eq_true', Bool.eq_false_iff]
      refine ⟨hmakes, fun hany => hdone ?_⟩
      obtain ⟨_, _, htls', hmem⟩ := (any_makesPair hplanned).mp hany
      cases htls.symm.trans htls'
      exact hmem
    | writeUnit hunit => exact .writeUnit (again_unit.mpr ⟨hunit, hdone⟩)
    | installIt _ | runSysusers _ | makeIt _ | daemonReload _ | enableUnit =>
      exact absurd rfl hwrote
  · rintro (ha | ha)
    · exact mem_bodyActions.mpr (hagain (mem_bodyActions.mp ha))
    · exact hplanned a ha

end Again

/-- What writes a file does so in both runs alike, but for the pair. -/
theorem wrote_seed {a : Action} (hmakes : a.makesPair = false) (seed' : Nat) (ids : Ids)
    (path : String) : wrote env seed ids path a = wrote env seed' ids path a := by
  cases a with
  | makePair _ _ _ => cases hmakes
  | installBinary _ _ | makeDir _ _ _ | writeFile _ _ _ _ | removeFile _ | run _ _ => rfl

/-! ## An install that stops -/

/-- A run that would succeed has done some of its actions and has come to the one at which it
stops. -/
structure Stopped (env : Setting) (seed : Nat) (h : Host) (found : Found) (done : List Action)
    (failing : Action) (rest : List Action) (h' : Host) : Prop where
  apart : Apart env.layout found.tls
  look : look env h = .ok found
  plan : ∃ plan, planInstall env found = .ok plan
  split : planActions env found = done ++ failing :: rest
  straight : ∃ straight, performAll env seed h (planActions env found) = .ok straight
  did : performAll env seed h done = .ok h'

namespace Stopped
variable {done rest : List Action} {failing : Action}

theorem there (hstopped : Stopped env seed h found done failing rest h') :
    found.unit = .same → h.read env.layout.unit = some env.unitText :=
  unit_of_same hstopped.look

theorem planned (hstopped : Stopped env seed h found done failing rest h') :
    ∀ a ∈ done, a ∈ bodyActions env found := by
  obtain ⟨todo, hbody, -⟩ := done_of_split hstopped.split
  intro a ha
  rw [hbody]
  exact List.mem_append_left _ ha

theorem reached (hstopped : Stopped env seed h found done failing rest h') :
    Reached env found seed h done h' := by
  obtain ⟨todo, hbody, -⟩ := done_of_split hstopped.split
  exact Service.reached hstopped.apart hstopped.there hbody hstopped.did

/-- The straight run asks for the user where there is none, and can make the pair. -/
theorem succeeds (hstopped : Stopped env seed h found done failing rest h') :
    (h.user ≠ none ∨ found.sysusers ≠ .same) ∧ PairReady env found := by
  obtain ⟨straight, hstraight⟩ := hstopped.straight
  obtain ⟨body, hbody, -⟩ := performAll_plan_ok.mp hstraight
  exact (body_ok_iff _ hstopped.apart hstopped.there).mp ⟨body, hbody⟩

theorem look_again (hstopped : Stopped env seed h found done failing rest h') :
    Service.look env h' = .ok (found.again env done) :=
  Service.look_again hstopped.apart hstopped.look hstopped.succeeds.2 hstopped.planned
    hstopped.reached

theorem there_again (hstopped : Stopped env seed h found done failing rest h') :
    (found.again env done).unit = .same → h'.read env.layout.unit = some env.unitText :=
  unit_of_same hstopped.look_again

/-- The action at which the run stops, if it is not the start, is the next one of the body. -/
theorem next (hstopped : Stopped env seed h found done failing rest h')
    (hlast : rank env.layout failing ≠ 9) :
    ∃ todo, bodyActions env found = done ++ failing :: todo := by
  obtain ⟨todo, hbody, hrest⟩ := done_of_split hstopped.split
  cases todo with
  | nil =>
    have hmem : failing ∈ startActions env found := by
      rw [← List.nil_append (startActions env found), ← hrest]
      exact List.mem_cons_self
    unfold startActions at hmem
    split at hmem
    · rw [List.mem_singleton] at hmem
      split at hmem
      · exact absurd (hmem ▸ rank_restartUnit) hlast
      · exact absurd (hmem ▸ rank_startUnit) hlast
    · cases hmem
  | cons a todo =>
    obtain ⟨rfl, -⟩ := List.cons.inj hrest
    exact ⟨todo, hbody⟩

/-- Of two actions that follow each other, the run stops at the second if the first is all that
is done. -/
theorem stops_between (hstopped : Stopped env seed h found done failing rest h') {a b : Action}
    (htogether : a ∈ bodyActions env found ↔ b ∈ bodyActions env found)
    (hnext : rank env.layout b = rank env.layout a + 1) (ha : rank env.layout a ≠ 3)
    (hb : rank env.layout b ≠ 3) (hlast : rank env.layout b ≠ 9) :
    failing = b ↔ a ∈ done ∧ b ∉ done := by
  have hranked := ranked_bodyActions hstopped.apart
  constructor
  · rintro rfl
    obtain ⟨todo, hbody⟩ := hstopped.next hlast
    rw [hbody] at hranked
    constructor
    · have hmem := htogether.mpr (hbody ▸ by simp)
      exact hranked.mem_done (hbody ▸ hmem) (by omega)
    · intro hmem
      have hbefore := hranked.before hmem
      unfold Before at hbefore
      omega
  · rintro ⟨hdone, hnot⟩
    obtain ⟨todo, hbody, hrest⟩ := done_of_split hstopped.split
    have hmem := htogether.mp (hstopped.planned a hdone)
    rw [hbody] at hranked hmem
    have htodo := (List.mem_append.mp hmem).resolve_left hnot
    cases todo with
    | nil => cases htodo
    | cons c todo =>
      obtain ⟨rfl, -⟩ := List.cons.inj hrest
      rcases List.mem_cons.mp htodo with rfl | htodo
      · rfl
      · have hfirst := hranked.before hdone
        have hcons := (List.pairwise_append.mp hranked.ordered).2.1
        have hsecond := (List.pairwise_cons.mp hcons).1 b htodo
        unfold Before at hfirst hsecond
        omega

end Stopped

theorem runSysusers_mem : runSysusers env.layout ∈ bodyActions env found ↔
    found.sysusers ≠ .same :=
  ⟨sysusers_of_mem, fun hnot => mem_bodyActions.mpr (.runSysusers hnot)⟩

theorem daemonReload_mem : daemonReload ∈ bodyActions env found ↔ found.unit ≠ .same := by
  refine ⟨fun ha => ?_, fun hnot => mem_bodyActions.mpr (.daemonReload hnot)⟩
  generalize haction : daemonReload = a at ha
  cases mem_bodyActions.mp ha with
  | daemonReload hunit => exact hunit
  | runSysusers _ => exact absurd haction.symm (runSysusers_ne_daemonReload _)
  | enableUnit => exact absurd haction daemonReload_ne_enableUnit
  | installIt _ | writeSysusers _ | makeIt _ | writeConfig _ | makePair _ _ | writeUnit _ =>
    cases haction

theorem any_installs : (bodyActions env found).any Action.installs = found.installs env := by
  rw [Bool.eq_iff_iff, List.any_eq_true]
  constructor
  · rintro ⟨a, ha, hinstalls⟩
    cases mem_bodyActions.mp ha with
    | installIt h => exact h
    | runSysusers _ | writeSysusers _ | makeIt _ | writeConfig _ | makePair _ _ | writeUnit _
    | daemonReload _ | enableUnit => cases hinstalls
  · exact fun hinstalls => ⟨_, mem_bodyActions.mpr (.installIt hinstalls), rfl⟩

namespace Stopped
variable {done rest : List Action} {failing : Action}

theorem at_sysusers (hstopped : Stopped env seed h found done failing rest h') :
    failing = runSysusers env.layout ↔
      writeSysusers env ∈ done ∧ runSysusers env.layout ∉ done := by
  refine hstopped.stops_between ?_ ?_ ?_ ?_ ?_
  · rw [writeSysusers_mem hstopped.apart, runSysusers_mem]
  · rw [rank_runSysusers, rank_writeSysusers]
  · rw [rank_writeSysusers]
    decide
  · rw [rank_runSysusers]
    decide
  · rw [rank_runSysusers]
    decide

theorem at_reload (hstopped : Stopped env seed h found done failing rest h') :
    failing = daemonReload ↔ writeUnit env ∈ done ∧ daemonReload ∉ done := by
  have hrank := rank_writeUnit hstopped.apart
  refine hstopped.stops_between ?_ ?_ ?_ ?_ ?_
  · rw [writeUnit_mem hstopped.apart, daemonReload_mem]
  · rw [rank_daemonReload, hrank]
  · rw [hrank]
    decide
  · rw [rank_daemonReload]
    decide
  · rw [rank_daemonReload]
    decide

/-- The second run has its user, unless the first one stopped at asking for it. -/
theorem user_again (hstopped : Stopped env seed h found done failing rest h') :
    h'.user ≠ none ∨ (found.again env done).sysusers ≠ .same ↔
      (failing = runSysusers env.layout → h.user ≠ none) := by
  rw [hstopped.at_sysusers, hstopped.reached.user, again_sysusers]
  have hfirst := hstopped.succeeds.1
  have hplanned : runSysusers env.layout ∈ done → found.sysusers ≠ .same := fun hmem =>
    runSysusers_mem.mp (hstopped.planned _ hmem)
  by_cases hrun : runSysusers env.layout ∈ done
  · simp [hrun]
  · rw [if_neg hrun]
    tauto

/-- **When the second run succeeds.** -/
theorem second_ok (hstopped : Stopped env seed h found done failing rest h') (seed' : Nat) :
    (∃ h'', performAll env seed' h' (bodyActions env (found.again env done)) = .ok h'') ↔
      (failing = runSysusers env.layout → h.user ≠ none) := by
  have hapart : Apart env.layout (found.again env done).tls := hstopped.apart
  rw [body_ok_iff _ hapart hstopped.there_again, hstopped.user_again]
  refine and_iff_left fun hmakes => hstopped.succeeds.2 ?_
  rw [again_makesPair, Bool.and_eq_true] at hmakes
  exact hmakes.1

/-- The straight run would succeed with another pair as well. -/
theorem straight_ok (hstopped : Stopped env seed h found done failing rest h') (seed' : Nat) :
    ∃ body, performAll env seed' h (bodyActions env found) = .ok body :=
  (body_ok_iff _ hstopped.apart hstopped.there).mpr hstopped.succeeds

end Stopped

/-! ## The second run beside the straight one -/

/-- A body that is done as a whole. -/
theorem reached_whole (hapart : Apart env.layout found.tls)
    (hthere : found.unit = .same → h.read env.layout.unit = some env.unitText)
    (hdid : performAll env seed h (bodyActions env found) = .ok h') :
    Reached env found seed h (bodyActions env found) h' :=
  reached hapart hthere (List.append_nil _).symm hdid

theorem makeIt_mem {path : String} :
    makeIt path ∈ bodyActions env found ↔ path ∈ env.layout.directories := by
  constructor
  · intro ha
    cases mem_bodyActions.mp ha with
    | makeIt hpath => exact hpath
  · exact fun hpath => mem_bodyActions.mpr (.makeIt hpath)

theorem enableUnit_mem : enableUnit ∈ bodyActions env found := mem_bodyActions.mpr .enableUnit

/-- What is loaded once a plan is done. -/
def Found.loads (env : Setting) (found : Found) (h : Host) : Option String :=
  if found.unit ≠ .same ∨ env.enableLoads = true then some env.unitText else h.loaded

theorem Reached.loads (hreached : Reached env found seed h (bodyActions env found) h') :
    h'.loaded = found.loads env h := by
  rw [hreached.loaded, Found.loads]
  simp only [daemonReload_mem, enableUnit_mem, true_and]

/-- What is in the binary's place once a plan is done. -/
def Found.places (env : Setting) (found : Found) (h : Host) : Option Bytes :=
  if found.installs env then some env.image else h.binary

theorem Reached.places (hreached : Reached env found seed h (bodyActions env found) h') :
    h'.binary = found.places env h := by
  rw [hreached.binary, any_installs, Found.places]

/-- A pair that is made in the second run was not made in the first. -/
theorem not_made_again {done : List Action} {a : Action}
    (ha : a ∈ bodyActions env (found.again env done)) (hmakes : a.makesPair = true) :
    done.any Action.makesPair = false := by
  cases mem_bodyActions.mp ha with
  | makePair _ hagain =>
    rw [again_makesPair, Bool.and_eq_true] at hagain
    simpa using hagain.2
  | installIt _ | writeSysusers _ | runSysusers _ | makeIt _ | writeConfig _ | writeUnit _
  | daemonReload _ | enableUnit => cases hmakes

/-- A file that is written in either of two runs. -/
theorem written_either {now later whole : Prop} [Decidable now] [Decidable later]
    [Decidable whole] {file base : Option HostFile} (hwhole : file ≠ none → (whole ↔ later ∨ now)) :
    (if later then file else none).or ((if now then file else none).or base) =
      (if whole then file else none).or base := by
  cases file with
  | none => simp only [ite_self, Option.none_or]
  | some file =>
    simp only [hwhole (Option.some_ne_none file)]
    by_cases hlater : later
    · simp only [hlater, if_true, true_or, Option.some_or]
    · by_cases hnow : now
      · simp only [hlater, hnow, if_true, if_false, or_true, Option.none_or, Option.some_or]
      · simp only [hlater, hnow, if_false, or_false, Option.none_or]

namespace Stopped
variable {done rest : List Action} {failing : Action} {seed' seed'' : Nat} {second straight : Host}

/-- Both runs leave the same, but for the pair and what is loaded. -/
theorem parts (hstopped : Stopped env seed h found done failing rest h')
    (hsecond : Reached env (found.again env done) seed' h'
      (bodyActions env (found.again env done)) second)
    (hstraight : Reached env found seed'' h (bodyActions env found) straight) :
    second.dirs = straight.dirs ∧ second.binary = straight.binary ∧
      second.enabled = straight.enabled ∧ second.service = straight.service := by
  have hfirst := hstopped.reached
  have hids := hfirst.ids
  refine ⟨?_, ?_, ?_, ?_⟩
  · refine Std.ExtTreeMap.ext_getElem? fun path => ?_
    rw [hsecond.dirs, hstraight.dirs, hids, hfirst.dirs]
    simp only [makeIt_mem]
    by_cases hpath : path ∈ env.layout.directories
    · rw [if_pos hpath, if_pos hpath]
    · have hnot : makeIt path ∉ done := fun hmem =>
        hpath (makeIt_mem.mp (hstopped.planned _ hmem))
      rw [if_neg hpath, if_neg hpath, if_neg hnot]
  · rw [hsecond.places, hstraight.places, Found.places, Found.places, again_installs, hfirst.binary]
    have hplanned : done.any Action.installs = true → found.installs env = true := by
      intro hany
      obtain ⟨a, ha, hinstalls⟩ := List.any_eq_true.mp hany
      rw [← any_installs]
      exact List.any_eq_true.mpr ⟨a, hstopped.planned a ha, hinstalls⟩
    cases hany : done.any Action.installs with
    | false => simp
    | true => simp [hplanned hany]
  · rw [hsecond.enabled, hstraight.enabled]
    simp [enableUnit_mem]
  · rw [hsecond.service, hstraight.service, hfirst.service]

/-- Both runs have the same unit loaded, unless the first one stopped at loading it. -/
theorem loaded (hstopped : Stopped env seed h found done failing rest h')
    (hsecond : Reached env (found.again env done) seed' h'
      (bodyActions env (found.again env done)) second)
    (hstraight : Reached env found seed'' h (bodyActions env found) straight) :
    second.loaded = straight.loaded ↔
      (failing = daemonReload → env.enableLoads = true ∨ h.loaded = some env.unitText) := by
  have hreload : daemonReload ∈ done → found.unit ≠ .same := fun hmem =>
    daemonReload_mem.mp (hstopped.planned _ hmem)
  have hunit : writeUnit env ∈ done → found.unit ≠ .same := fun hmem =>
    (writeUnit_mem hstopped.apart).mp (hstopped.planned _ hmem)
  rw [hsecond.loads, hstraight.loads, hstopped.at_reload]
  simp only [Found.loads, again_unit, hstopped.reached.loaded]
  rcases Bool.eq_false_or_eq_true env.enableLoads with henable | henable
  · simp [henable]
  simp only [henable, Bool.false_eq_true, or_false, and_false, false_or]
  by_cases hwritten : writeUnit env ∈ done
  · by_cases hloaded : daemonReload ∈ done
    · simp [hwritten, hloaded, hunit hwritten]
    · simp [hwritten, hloaded, hunit hwritten]
  · by_cases hloaded : daemonReload ∈ done
    · simp [hwritten, hloaded, hreload hloaded]
    · simp [hwritten, hloaded]

/-- Both runs leave the same files, each with the pair that was made in it. -/
theorem files (hstopped : Stopped env seed h found done failing rest h')
    (hsecond : Reached env (found.again env done) seed' h'
      (bodyActions env (found.again env done)) second)
    (hstraight : Reached env found (if done.any Action.makesPair then seed else seed') h
      (bodyActions env found) straight) : second.files = straight.files := by
  refine Std.ExtTreeMap.ext_getElem? fun path => ?_
  have hfirst := hstopped.reached
  rw [hsecond.files, hstraight.files, hfirst.ids, hfirst.files]
  unfold written
  have hwriter : writer env (found.again env done) path = writer env found path := rfl
  rw [hwriter]
  cases writer env found path with
  | none => rfl
  | some a =>
    -- The pair is made in one of the runs, and every other file is the same in both.
    have hthen (hmem : a ∈ bodyActions env (found.again env done)) :
        wrote env seed' (h.user.getD env.newIds) path a =
          wrote env (if done.any Action.makesPair then seed else seed')
            (h.user.getD env.newIds) path a := by
      cases hmakes : a.makesPair with
      | false => exact wrote_seed hmakes _ _ _
      | true => rw [not_made_again hmem hmakes, if_neg Bool.false_ne_true]
    have hnow (hmem : a ∈ done) : wrote env seed (h.user.getD env.newIds) path a =
        wrote env (if done.any Action.makesPair then seed else seed')
          (h.user.getD env.newIds) path a := by
      cases hmakes : a.makesPair with
      | false => exact wrote_seed hmakes _ _ _
      | true => rw [if_pos (List.any_eq_true.mpr ⟨a, hmem, hmakes⟩)]
    have hagain : wrote env (if done.any Action.makesPair then seed else seed')
        (h.user.getD env.newIds) path a ≠ none → _ := mem_again hstopped.planned
    simp only [Option.bind_some]
    generalize wrote env (if done.any Action.makesPair then seed else seed')
      (h.user.getD env.newIds) path a = file at hthen hnow hagain ⊢
    have hlater : (if a ∈ bodyActions env (found.again env done) then
        wrote env seed' (h.user.getD env.newIds) path a else none) =
        if a ∈ bodyActions env (found.again env done) then file else none := by
      split
      · next hmem => exact hthen hmem
      · rfl
    have hearlier : (if a ∈ done then wrote env seed (h.user.getD env.newIds) path a else none) =
        if a ∈ done then file else none := by
      split
      · next hmem => exact hnow hmem
      · rfl
    rw [hlater, hearlier]
    exact written_either hagain

end Stopped

theorem Reached.user_there (hreached : Reached env found seed h (bodyActions env found) h')
    (huser : h.user ≠ none ∨ found.sysusers ≠ .same) :
    h'.user = some (h.user.getD env.newIds) := by
  rw [hreached.user]
  simp only [runSysusers_mem]
  split
  · rfl
  · next hsame =>
    obtain ⟨ids, hids⟩ := Option.ne_none_iff_exists'.mp (huser.resolve_right hsame)
    rw [hids]
    rfl

/-- The failures after which the second run takes up where the first one stopped. -/
structure Recovers (env : Setting) (found : Found) (h : Host) (failure : Failure)
    (failing : Action) (rest : List Action) : Prop where
  /-- The user that was not made is there. -/
  user : failing = runSysusers env.layout → h.user ≠ none
  /-- No half of a pair is left. -/
  pair : failure = .halfway → failing.makesPair = false
  /-- The unit that was not loaded is loaded when it is enabled, or was all along. -/
  loads : failing = daemonReload → env.enableLoads = true ∨ h.loaded = some env.unitText
  /-- Where nothing is left to be changed, no service has to be restarted for it. -/
  restarts : restartUnit ∈ failing :: rest →
    (∀ a ∈ failing :: rest, a.installs = false ∧ a ≠ writeUnit env) →
      h.service = none ∨ h.service = some ⟨found.places env h, found.loads env h⟩

namespace Stopped
variable {done rest : List Action} {failing : Action} {seed' seed'' : Nat} {second straight : Host}

/-- What is to be done still, start apart. -/
theorem todo_of_mem (hstopped : Stopped env seed h found done failing rest h') {a : Action}
    (ha : a ∈ failing :: rest) :
    a ∈ startActions env found ∨
      (a ∈ bodyActions env found ∧ ∀ b ∈ done, Before env.layout b a) := by
  obtain ⟨todo, hbody, hrest⟩ := done_of_split hstopped.split
  have hranked := hbody ▸ ranked_bodyActions hstopped.apart
  rw [hrest] at ha
  rcases List.mem_append.mp ha with ha | ha
  · refine .inr ⟨hbody ▸ List.mem_append_right _ ha, fun b hb => ?_⟩
    exact (List.pairwise_append.mp hranked.ordered).2.2 b hb a ha
  · exact .inl ha

theorem mem_todo (hstopped : Stopped env seed h found done failing rest h') {a : Action}
    (ha : a ∈ bodyActions env found) (hnot : a ∉ done) : a ∈ failing :: rest := by
  obtain ⟨todo, hbody, hrest⟩ := done_of_split hstopped.split
  rw [hbody] at ha
  rw [hrest]
  exact List.mem_append_left _ ((List.mem_append.mp ha).resolve_left hnot)

theorem restart_mem (hstopped : Stopped env seed h found done failing rest h') :
    restartUnit ∈ failing :: rest ↔ found.starts env = true ∧ found.changed env = true := by
  obtain ⟨todo, hbody, hrest⟩ := done_of_split hstopped.split
  have hnot : restartUnit ∉ todo := by
    intro hmem
    have hlt := rank_lt_of_mem hstopped.apart (hbody ▸ List.mem_append_right done hmem)
    rw [rank_restartUnit] at hlt
    exact absurd hlt (Nat.lt_irrefl 9)
  rw [hrest, List.mem_append, or_iff_right hnot]
  unfold startActions
  by_cases hstarts : found.starts env = true
  · by_cases hchanged : found.changed env = true
    · simp [hstarts, hchanged]
    · simp [hstarts, hchanged, restartUnit, startUnit]
  · simp [hstarts]

/-- The second run knows of a change as long as one is to be made. -/
theorem changed_again (hstopped : Stopped env seed h found done failing rest h') :
    (found.again env done).changed env = true ↔
      ∃ a ∈ failing :: rest, a.installs = true ∨ a = writeUnit env := by
  have hchanged : (found.again env done).changed env = true ↔
      (found.again env done).installs env = true ∨ (found.again env done).unit ≠ .same := by
    simp [Found.changed]
  rw [hchanged, again_installs, again_unit, Bool.and_eq_true, Bool.not_eq_true']
  constructor
  · rintro (⟨hinstalls, hnot⟩ | ⟨hunit, hnot⟩)
    · refine ⟨installIt env found, hstopped.mem_todo ?_ ?_, .inl rfl⟩
      · exact mem_bodyActions.mpr (.installIt hinstalls)
      · intro hmem
        rw [List.any_eq_true.mpr ⟨_, hmem, rfl⟩] at hnot
        cases hnot
    · exact ⟨writeUnit env, hstopped.mem_todo ((writeUnit_mem hstopped.apart).mpr hunit) hnot,
        .inr rfl⟩
  · rintro ⟨a, ha, hchanges⟩
    rcases hstopped.todo_of_mem ha with hstart | ⟨hbody, hbefore⟩
    · unfold startActions at hstart
      split at hstart
      · rw [List.mem_singleton] at hstart
        split at hstart <;> subst hstart <;> rcases hchanges with h | h <;> cases h
      · cases hstart
    · rcases hchanges with hinstalls | rfl
      · refine .inl ⟨?_, ?_⟩
        · rw [← any_installs]
          exact List.any_eq_true.mpr ⟨a, hbody, hinstalls⟩
        · refine Bool.eq_false_iff.mpr fun hany => ?_
          obtain ⟨b, hb, hinstalls'⟩ := List.any_eq_true.mp hany
          have hrank := hbefore b hb
          cases a <;> cases hinstalls
          cases b <;> cases hinstalls'
          simp [Before, rank] at hrank
      · refine .inr ⟨(writeUnit_mem hstopped.apart).mp hbody, fun hmem => ?_⟩
        have hrank := hbefore _ hmem
        rw [Before, rank_writeUnit hstopped.apart] at hrank
        omega

end Stopped

/-! ## From which failures the second run takes up -/

@[simp] theorem started_loaded : (h.started env found).loaded = h.loaded := by
  unfold Host.started
  split <;> rfl

theorem started_service : (h.started env found).service =
    if found.starts env then
      some (if found.changed env then h.current else h.service.getD h.current)
    else h.service := by
  unfold Host.started
  split <;> rfl

theorem current_eq (hreached : Reached env found seed h (bodyActions env found) h') :
    h'.current = ⟨found.places env h, found.loads env h⟩ := by
  rw [Host.current, hreached.places, hreached.loads]

/-- A change that is known in the second run was known in the first. -/
theorem changed_of_again {done : List Action} (hagain : (found.again env done).changed env = true) :
    found.changed env = true := by
  have hchanged : (found.again env done).installs env = true ∨
      (found.again env done).unit ≠ .same := by
    simpa [Found.changed] using hagain
  rw [again_installs, again_unit, Bool.and_eq_true] at hchanged
  simp only [Found.changed, Bool.or_eq_true, decide_eq_true_eq]
  tauto

namespace Stopped
variable {done rest : List Action} {failing : Action} {seed' seed'' : Nat} {second straight : Host}

/-- The restart is lost: the plan ends with one, and in the second run nothing changes. -/
theorem lost_iff (hstopped : Stopped env seed h found done failing rest h') :
    (restartUnit ∈ failing :: rest ∧
      ∀ a ∈ failing :: rest, a.installs = false ∧ a ≠ writeUnit env) ↔
      found.starts env = true ∧ found.changed env = true ∧
        (found.again env done).changed env = false := by
  have hnot : (∀ a ∈ failing :: rest, a.installs = false ∧ a ≠ writeUnit env) ↔
      (found.again env done).changed env = false := by
    rw [← Bool.not_eq_true, hstopped.changed_again]
    simp only [not_exists, not_and, not_or, Bool.not_eq_true]
  rw [hstopped.restart_mem, hnot, and_assoc]

theorem reached_second (hstopped : Stopped env seed h found done failing rest h')
    (hsecond : performAll env seed' h' (bodyActions env (found.again env done)) = .ok second) :
    Reached env (found.again env done) seed' h' (bodyActions env (found.again env done)) second :=
  have hapart : Apart env.layout (found.again env done).tls := hstopped.apart
  reached_whole hapart hstopped.there_again hsecond

theorem reached_straight (hstopped : Stopped env seed h found done failing rest h')
    (hstraight : performAll env seed'' h (bodyActions env found) = .ok straight) :
    Reached env found seed'' h (bodyActions env found) straight :=
  reached_whole hstopped.apart hstopped.there hstraight

/-- **Where the second run takes up**, it ends as the straight run does. -/
theorem same_end (hstopped : Stopped env seed h found done failing rest h')
    {failure : Failure} (hrecovers : Recovers env found h failure failing rest)
    (hsecond : performAll env seed' h' (bodyActions env (found.again env done)) = .ok second)
    (hstraight : performAll env (if done.any Action.makesPair then seed else seed') h
      (bodyActions env found) = .ok straight) :
    second.started env (found.again env done) = straight.started env found := by
  have hthen := hstopped.reached_second hsecond
  have hnow := hstopped.reached_straight hstraight
  obtain ⟨hdirs, hbinary, henabled, hservice⟩ := hstopped.parts hthen hnow
  have huser : second.user = straight.user := by
    rw [hthen.user_there (hstopped.user_again.mpr hrecovers.user),
      hnow.user_there hstopped.succeeds.1, hstopped.reached.ids]
  have hsame : second = straight :=
    Host.ext (hstopped.files hthen hnow) hdirs hbinary huser
      ((hstopped.loaded hthen hnow).mpr hrecovers.loads) henabled hservice
  have hcurrent := current_eq hnow
  subst hsame
  unfold Host.started
  rw [again_starts hstopped.planned]
  by_cases hstarts : found.starts env = true
  · rw [if_pos hstarts, if_pos hstarts]
    cases hagain : (found.again env done).changed env with
    | true => rw [changed_of_again hagain]
    | false =>
      cases hchanged : found.changed env with
      | false => rfl
      | true =>
        obtain ⟨hrestart, hnothing⟩ := hstopped.lost_iff.mpr ⟨hstarts, hchanged, hagain⟩
        have hruns := hrecovers.restarts hrestart hnothing
        rw [← hcurrent, ← hnow.service] at hruns
        rcases hruns with hruns | hruns
        · simp [hruns]
        · simp [hruns]
  · rw [if_neg hstarts, if_neg hstarts]

/-- Where it ends as the straight run does, the unit was loaded and no restart was lost. -/
theorem of_same_end (hstopped : Stopped env seed h found done failing rest h')
    (hsecond : performAll env seed' h' (bodyActions env (found.again env done)) = .ok second)
    (hstraight : performAll env seed'' h (bodyActions env found) = .ok straight)
    (hsame : second.started env (found.again env done) = straight.started env found) :
    (failing = daemonReload → env.enableLoads = true ∨ h.loaded = some env.unitText) ∧
      (restartUnit ∈ failing :: rest →
        (∀ a ∈ failing :: rest, a.installs = false ∧ a ≠ writeUnit env) →
          h.service = none ∨ h.service = some ⟨found.places env h, found.loads env h⟩) := by
  have hthen := hstopped.reached_second hsecond
  have hnow := hstopped.reached_straight hstraight
  constructor
  · have hloaded := congrArg Host.loaded hsame
    rw [started_loaded, started_loaded] at hloaded
    exact (hstopped.loaded hthen hnow).mp hloaded
  · intro hrestart hnothing
    obtain ⟨hstarts, hchanged, hagain⟩ := hstopped.lost_iff.mp ⟨hrestart, hnothing⟩
    have hservice := congrArg Host.service hsame
    rw [started_service, started_service, again_starts hstopped.planned, hstarts, hchanged, hagain,
      (hstopped.parts hthen hnow).2.2.2, hnow.service, current_eq hnow] at hservice
    cases hruns : h.service with
    | none => exact .inl rfl
    | some running =>
      rw [hruns] at hservice
      exact .inr hservice

end Stopped

/-! ## Half a pair -/

/-- The command run again succeeds, and leaves what its actions would have left in one run: with
the pair that the first run made, or with one of its own. -/
def Resumed (env : Setting) (seed seed' : Nat) (actions : List Action) (h h' : Host) : Prop :=
  ∃ h'', install env seed' h' = .ok h'' ∧
    (performAll env seed h actions = .ok h'' ∨ performAll env seed' h actions = .ok h'')

namespace Stopped
variable {done rest : List Action} {failing : Action}

theorem install_again (hstopped : Stopped env seed h found done failing rest h') (seed' : Nat) :
    install env seed' h' = performAll env seed' h' (planActions env (found.again env done)) := by
  obtain ⟨plan, hplan⟩ := hstopped.plan
  obtain ⟨-, hunit, hsysusers, hpair⟩ := planInstall_ok hplan
  obtain ⟨again, hagain, hactions⟩ := planInstall_again env done hunit hsysusers hpair
  unfold install
  simp only [hstopped.look_again, hagain, hactions]

/-- The key is written, and the certificate is not. -/
theorem half (hstopped : Stopped env seed h found done failing rest h')
    (hmakes : failing.makesPair = true) :
    ∃ certFile keyFile key ids, found.tls = some (certFile, keyFile) ∧
      found.makesPair env = true ∧ done.any Action.makesPair = false ∧
      failed env seed h' .halfway failing = h'.write keyFile key 0o600 ids := by
  have hlast : rank env.layout failing ≠ 9 := by
    cases failing <;> cases hmakes
    exact fun h => by cases h
  obtain ⟨todo, hbody⟩ := hstopped.next hlast
  have hranked := hbody ▸ ranked_bodyActions hstopped.apart
  have hmem : failing ∈ bodyActions env found := by simp [hbody]
  obtain ⟨straight, hstraight⟩ := hstopped.straight_ok seed
  obtain ⟨_, hdid, hlater⟩ := performAll_append_ok (hbody ▸ hstraight)
  cases hstopped.did.symm.trans hdid
  rw [performAll_cons] at hlater
  have hnot : done.any Action.makesPair = false := by
    refine Bool.eq_false_iff.mpr fun hany => ?_
    obtain ⟨b, hb, hmakes'⟩ := List.any_eq_true.mp hany
    have hbefore := hranked.before hb
    cases failing <;> cases hmakes
    cases b <;> cases hmakes'
    simp [Before, rank] at hbefore
  cases mem_bodyActions.mp hmem with
  | makePair htls hfound =>
    obtain ⟨pair, hpair⟩ := hstopped.succeeds.2 hfound
    cases huser : h'.user with
    | none =>
      simp only [perform, hpair, idsOf, huser] at hlater
      cases hlater
    | some ids =>
      refine ⟨_, _, (pair seed).key, ids, htls, hfound, hnot, ?_⟩
      simp only [failed, hpair, huser]
  | installIt _ | writeSysusers _ | runSysusers _ | makeIt _ | writeConfig _ | writeUnit _
  | daemonReload _ | enableUnit => cases hmakes

end Stopped

theorem read_write_of_ne {path other : String} (content : String) (mode : Nat) (ids : Ids)
    (hother : path ≠ other) : (h.write path content mode ids).read other = h.read other :=
  read_eq_of_files (Map.get_insert_of_ne _ _ hother)

theorem has_write (path other content : String) (mode : Nat) (ids : Ids) :
    (h.write path content mode ids).has other = (decide (path = other) || h.has other) := by
  rw [has_eq, has_eq, Host.write, Map.get_insert]
  by_cases hother : path = other
  · simp [hother]
  · simp [hother]

/-- With half a pair, the second run finds a key, and a certificate only if it is to be in the
same file. -/
theorem look_half (hapart : Apart env.layout found.tls) (hlook : look env h = .ok found)
    (key : String) (ids : Ids) {certFile keyFile : String}
    (htls : found.tls = some (certFile, keyFile)) (hnone : found.certExists = false) :
    look env (h.write keyFile key 0o600 ids) =
      .ok { found with certExists := decide (keyFile = certFile), keyExists := true } := by
  obtain ⟨hpairOf, hfound⟩ := look_ok hlook
  have hother := hapart.pair _ htls keyFile (by simp)
  simp only [List.mem_append, List.mem_cons, not_or] at hother
  obtain ⟨⟨hunit, hsysusers, hconfig, -⟩, -⟩ := hother
  have hhas : h.has certFile = false := by
    have hcert := congrArg Found.certExists hfound
    simpa [htls, hnone] using hcert.symm
  have hread : (h.write keyFile key 0o600 ids).read env.layout.configFile = _ :=
    read_write_of_ne key 0o600 ids hconfig
  rw [look_of (hread ▸ hpairOf), hread, read_write_of_ne key 0o600 ids hunit,
    read_write_of_ne key 0o600 ids hsysusers, has_write]
  have hcert : (found.tls.any fun pair => (h.write keyFile key 0o600 ids).has pair.1) =
      decide (keyFile = certFile) := by
    rw [htls]
    show (h.write keyFile key 0o600 ids).has certFile = _
    rw [has_write, hhas, Bool.or_false]
  have hkey : (found.tls.any fun pair => (h.write keyFile key 0o600 ids).has pair.2) = true := by
    rw [htls]
    show (h.write keyFile key 0o600 ids).has keyFile = _
    rw [has_write, decide_eq_true rfl, Bool.true_or]
  rw [hcert, hkey]
  have hkept : found.configExists =
      ((h.read env.layout.configFile).isSome || h.has env.layout.configFile) :=
    congrArg Found.configExists hfound
  congr 2
  · exact (congrArg Found.running hfound).symm
  · exact (congrArg Found.binaryInstalled hfound).symm
  · exact (congrArg Found.unit hfound).symm
  · exact (congrArg Found.sysusers hfound).symm
  · rw [hkept, decide_eq_false hconfig, Bool.false_or]

theorem install_ok (hinstall : install env seed h = .ok h') (hlook : look env h = .ok found) :
    (found.tls ≠ none → found.certExists = found.keyExists) ∧
      performAll env seed h (planActions env found) = .ok h' := by
  unfold install at hinstall
  simp only [hlook] at hinstall
  split at hinstall
  · cases hinstall
  · next plan hplan =>
    obtain ⟨hactions, -, -, hpair⟩ := planInstall_ok hplan
    exact ⟨hpair, hactions ▸ hinstall⟩

@[simp] theorem started_files : (h.started env found).files = h.files := by
  unfold Host.started
  split <;> rfl

/-- The pair's one file, where the certificate and the key are to be in the same. -/
theorem files_one (hapart : Apart env.layout found.tls)
    (hthere : found.unit = .same → h.read env.layout.unit = some env.unitText) {file : String}
    (htls : found.tls = some (file, file))
    (hdid : performAll env seed h (planActions env found) = .ok h') :
    h'.files[file]? =
      (if found.makesPair env then
        wrote env seed (h.user.getD env.newIds) file (.makePair file file env.wanted.names)
      else none).or h.files[file]? := by
  obtain ⟨body, hbody, rfl⟩ := performAll_plan_ok.mp hdid
  rw [started_files, (reached_whole hapart hthere hbody).files, written,
    writer_pair hapart htls (.inl rfl), Option.bind_some]
  have hmem : .makePair file file env.wanted.names ∈ bodyActions env found ↔
      found.makesPair env = true := by
    constructor
    · intro ha
      cases mem_bodyActions.mp ha with
      | makePair _ hmakes => exact hmakes
    · exact fun hmakes => mem_bodyActions.mpr (.makePair htls hmakes)
  simp only [hmem]

namespace Stopped
variable {done rest : List Action} {failing : Action}

/-- **From half a pair the second run does not take up.** -/
theorem not_resumed_half (hstopped : Stopped env seed h found done failing rest h')
    (hmakes : failing.makesPair = true) (seed' : Nat) :
    ¬ Resumed env seed seed' (planActions env found) h (failed env seed h' .halfway failing) := by
  obtain ⟨certFile, keyFile, key, ids, htls, hfound, hnot, hfailed⟩ := hstopped.half hmakes
  obtain ⟨plan, hplan⟩ := hstopped.plan
  have hboth := (planInstall_ok hplan).2.2.2 (htls ▸ Option.some_ne_none _)
  have hnone : found.certExists = false := by
    unfold Found.makesPair Found.paired at hfound
    rw [← hboth] at hfound
    cases hcert : found.certExists with
    | false => rfl
    | true => simp [hcert] at hfound
  have hnone' : (found.again env done).certExists = false := by
    simp only [Found.again, hnone, hnot, Bool.or_false]
  have hapart : Apart env.layout (found.again env done).tls := hstopped.apart
  have hlook := look_half hapart hstopped.look_again key ids htls hnone'
  rintro ⟨h'', hinstall, hstraight⟩
  rw [hfailed] at hinstall
  obtain ⟨hpair, hsecond⟩ := install_ok hinstall hlook
  have heq : keyFile = certFile := by simpa using hpair (htls ▸ Option.some_ne_none _)
  subst heq
  -- One file, with the key in it and the mode of a key.
  have hfile : h''.files[keyFile]? = some ⟨.text key, 0o600, ids⟩ := by
    have hthere := unit_of_same hlook
    generalize hpresent : { found.again env done with
      certExists := decide (keyFile = keyFile), keyExists := true } = present at hsecond hthere
    have htls' : present.tls = some (keyFile, keyFile) := hpresent ▸ htls
    have hapart' : Apart env.layout present.tls := hpresent ▸ hapart
    have hpaired : present.makesPair env = false := by
      subst hpresent
      simp [Found.makesPair, Found.paired]
    rw [files_one hapart' hthere htls' hsecond]
    rw [if_neg (Bool.eq_false_iff.mp hpaired), Option.none_or, Host.write, Map.get_insert_self]
  obtain ⟨pair, hself⟩ := hstopped.succeeds.2 hfound
  have hcert (other : Nat) : performAll env other h (planActions env found) = .ok h'' → False := by
    intro hdid
    rw [files_one hstopped.apart hstopped.there htls hdid, if_pos hfound] at hfile
    simp only [wrote, hself, if_pos, Option.some_or] at hfile
    cases hfile
  exact hstraight.elim (hcert seed) (hcert seed')

theorem failed_eq {failure : Failure} (hpair : failure = .halfway → failing.makesPair = false) :
    failed env seed h failure failing = h := by
  cases failure with
  | atOnce => rfl
  | halfway =>
    have hnot := hpair rfl
    cases failing with
    | makePair _ _ _ => cases hnot
    | installBinary _ _ | makeDir _ _ _ | writeFile _ _ _ _ | removeFile _ | run _ _ => rfl

/-- **The command run again takes up where it stopped in exactly these cases.** -/
theorem resumes_iff (hstopped : Stopped env seed h found done failing rest h') (seed' : Nat)
    (failure : Failure) :
    Resumed env seed seed' (planActions env found) h (failed env seed h' failure failing) ↔
      Recovers env found h failure failing rest := by
  constructor
  · intro hresumed
    have hpair : failure = .halfway → failing.makesPair = false := by
      rintro rfl
      refine Bool.eq_false_iff.mpr fun hmakes => ?_
      exact hstopped.not_resumed_half hmakes seed' hresumed
    rw [failed_eq hpair] at hresumed
    obtain ⟨h'', hinstall, hstraight⟩ := hresumed
    rw [hstopped.install_again] at hinstall
    obtain ⟨second, hsecond, rfl⟩ := performAll_plan_ok.mp hinstall
    have huser := (hstopped.second_ok seed').mp ⟨second, hsecond⟩
    rcases hstraight with hstraight | hstraight
    all_goals
      obtain ⟨straight, hbody, hsame⟩ := performAll_plan_ok.mp hstraight
      obtain ⟨hloads, hrestarts⟩ := hstopped.of_same_end hsecond hbody hsame
      exact ⟨huser, hpair, hloads, hrestarts⟩
  · intro hrecovers
    rw [failed_eq hrecovers.pair]
    obtain ⟨second, hsecond⟩ := (hstopped.second_ok seed').mpr hrecovers.user
    obtain ⟨straight, hstraight⟩ :=
      hstopped.straight_ok (if done.any Action.makesPair then seed else seed')
    have hsame := hstopped.same_end hrecovers hsecond hstraight
    refine ⟨second.started env (found.again env done), ?_, ?_⟩
    · rw [hstopped.install_again]
      exact performAll_plan_ok.mpr ⟨second, hsecond, rfl⟩
    · rw [hsame]
      have hplan := performAll_plan_ok.mpr ⟨straight, hstraight, rfl⟩
      by_cases hany : done.any Action.makesPair = true
      · rw [if_pos hany] at hplan
        exact .inl hplan
      · rw [if_neg hany] at hplan
        exact .inr hplan

end Stopped

/-! ## What an install promises -/

/-- **An interrupted install.** A plan that succeeds when nothing stops it is taken up by the
command run again, wherever it stops, in exactly the cases in which the user is not missing,
no half of a pair is left, the unit is loaded, and no restart is lost. -/
theorem taken_up_iff (seed' : Nat) (failure : Failure) {plan : Plan} {done rest : List Action}
    {failing : Action} {straight : Host} (hapart : Apart env.layout found.tls)
    (hlook : look env h = .ok found) (hplan : planInstall env found = .ok plan)
    (hstraight : performAll env seed h plan.actions = .ok straight)
    (hsplit : plan.actions = done ++ failing :: rest)
    (hdid : performAll env seed h done = .ok h') :
    Resumed env seed seed' plan.actions h (failed env seed h' failure failing) ↔
      Recovers env found h failure failing rest := by
  have hactions := (planInstall_ok hplan).1
  have hstopped : Stopped env seed h found done failing rest h' := {
    apart := hapart
    look := hlook
    plan := ⟨plan, hplan⟩
    split := hactions ▸ hsplit
    straight := ⟨straight, hactions ▸ hstraight⟩
    did := hdid }
  rw [hactions]
  exact hstopped.resumes_iff seed' failure

section Fresh

/-- A server that is installed for the first time, from where it was unpacked. -/
def unpacked : Setting where
  layout := defaultLayout
  wanted := {
    names := ["example.org"]
    initialConfig := "[tls]\ncert_file = \"/etc/passalong-server/tls/cert.pem\"\n" ++
      "key_file = \"/etc/passalong-server/tls/key.pem\"\n" }
  running := "/root/passalong-server"
  image := []
  template := marker ++ "\n[Service]\nExecStart=\x7b\x7bbinary\x7d\x7d serve\n"
  parse _ := .ok (.tls, some ("/etc/passalong-server/tls/cert.pem",
    "/etc/passalong-server/tls/key.pem"))
  selfSigned _ := .ok fun seed => ⟨"certificate " ++ toString seed, "key " ++ toString seed⟩
  newIds := (999, 999)
  enableLoads := true

def freshHost : Host := ⟨∅, ∅, none, none, none, false, none⟩

def freshFound : Found where
  running := "/root/passalong-server"
  binaryInstalled := false
  unit := .absent
  sysusers := .absent
  configExists := false
  tls := some ("/etc/passalong-server/tls/cert.pem", "/etc/passalong-server/tls/key.pem")
  certExists := false
  keyExists := false

theorem fresh_apart : Apart unpacked.layout freshFound.tls where
  files := by decide
  config := by decide
  pair := by
    intro paths hpaths
    cases hpaths
    decide

theorem fresh_look : look unpacked freshHost = .ok freshFound := by
  simp [look, pairOf, freshHost, freshFound, unpacked, Host.read, Host.has, Existing.of]

theorem fresh_straight : ∃ straight,
    performAll unpacked 0 freshHost (planActions unpacked freshFound) = .ok straight := by
  have hok := (body_ok_iff 0 fresh_apart (unit_of_same fresh_look)).mpr
    ⟨.inr (by decide), fun _ => ⟨_, rfl⟩⟩
  obtain ⟨body, hbody⟩ := hok
  exact ⟨_, performAll_plan_ok.mpr ⟨body, hbody, rfl⟩⟩

theorem fresh_plan : ∃ plan, planInstall unpacked freshFound = .ok plan ∧
    plan.actions = planActions unpacked freshFound :=
  planInstall_of (by decide) (by decide) fun _ => rfl

/-- What an install on a fresh host has done before it asks for the user. -/
def freshDone : List Action := [installIt unpacked freshFound, writeSysusers unpacked]

def freshRest : List Action := (planActions unpacked freshFound).drop 3

/-- The host on which `systemd-sysusers` fails. -/
def userless : Host :=
  { freshHost with
    binary := some unpacked.image
    files := (∅ : Map String HostFile).insert unpacked.layout.sysusers
      ⟨.text unpacked.sysusersText, 0o644, (0, 0)⟩ }

theorem fresh_stopped : Stopped unpacked 0 freshHost freshFound freshDone
    (runSysusers unpacked.layout) freshRest userless where
  apart := fresh_apart
  look := fresh_look
  plan := fresh_plan.imp fun _ h => h.1
  split := rfl
  straight := fresh_straight
  did := rfl

theorem taken_up_fresh : ∃ plan straight,
    planInstall unpacked freshFound = .ok plan ∧
      performAll unpacked 0 freshHost plan.actions = .ok straight ∧
        (Resumed unpacked 0 1 plan.actions freshHost
            (failed unpacked 0 userless .atOnce (runSysusers unpacked.layout)) ↔
          Recovers unpacked freshFound freshHost .atOnce (runSysusers unpacked.layout)
            freshRest) := by
  obtain ⟨plan, hplan, hactions⟩ := fresh_plan
  obtain ⟨straight, hstraight⟩ := fresh_straight
  rw [← hactions] at hstraight
  have hsplit : plan.actions = freshDone ++ runSysusers unpacked.layout :: freshRest :=
    hactions.trans rfl
  exact ⟨plan, straight, hplan, hstraight,
    taken_up_iff 1 .atOnce fresh_apart fresh_look hplan hstraight hsplit rfl⟩

/-- **Where `systemd-sysusers` fails**, the file that asks for the user stays, and the command run
again says that there is no user. -/
theorem not_taken_up : install unpacked 1 (failed unpacked 0 userless .atOnce
      (runSysusers unpacked.layout)) = .error noUserText ∧
    ¬ Resumed unpacked 0 1 (planActions unpacked freshFound) freshHost
      (failed unpacked 0 userless .atOnce (runSysusers unpacked.layout)) := by
  constructor
  · show install unpacked 1 userless = _
    have hinstalls : (freshFound.again unpacked freshDone).installs unpacked = false := by
      rw [again_installs]
      rfl
    have hsysusers : (freshFound.again unpacked freshDone).sysusers = .same := by
      simp [Found.again, freshDone]
    rw [fresh_stopped.install_again, planActions, binaryActions, hinstalls, sysusersActions,
      hsysusers]
    rfl
  · intro hresumed
    exact ((fresh_stopped.resumes_iff 1 .atOnce).mp hresumed).user rfl rfl

end Fresh

end

end Service

end Passalong
