import Passalong.Lib.Map
import Passalong.Shelf

/-!
# Installing the service (`service/plan.rs`, `service/mod.rs`, `service/system.rs`)

`service install` looks at the host, makes a plan, and performs its actions one after the
other. A `Host` is what these look at and change: files, directories, the binary in its
place, the service's user, the unit systemd has loaded, and whether the service is enabled
and what it runs. Texts said to the operator on the way are left out, and so are the
directories made above a file, at which nothing looks.

What is not this repository's is in `Setting`: what the TOML reader and the certificate
library answer, the ids `systemd-sysusers` gives out, and whether `systemctl enable` loads
the unit files, as `daemon-reload` does. A restart, or a start of a service that is not
running, makes the service run the binary in its place and the loaded unit.
-/

namespace Passalong

open Lib

namespace Service

/-! ## The host -/

/-- A user id and a group id. -/
abbrev Ids : Type := Nat × Nat

inductive Content where
  | text (text : String)
  /-- Not UTF-8. -/
  | data (bytes : Bytes)
  deriving DecidableEq

structure HostFile where
  content : Content
  mode : Nat
  owner : Ids
  deriving DecidableEq

/-- What a running service runs. -/
structure Running where
  binary : Option Bytes
  unit : Option String
  deriving DecidableEq

@[ext] structure Host where
  files : Map String HostFile
  /-- Directories, with their mode and owner. -/
  dirs : Map String (Nat × Ids)
  /-- The binary in its place. -/
  binary : Option Bytes
  /-- The service's user. -/
  user : Option Ids
  /-- The unit as systemd has loaded it. -/
  loaded : Option String
  enabled : Bool
  service : Option Running

namespace Host

/-- `System::read`: a text file's content. -/
def read (h : Host) (path : String) : Option String :=
  match h.files[path]? with
  | some ⟨.text text, _, _⟩ => some text
  | some ⟨.data _, _, _⟩ => none
  | none => none

/-- `System::exists`. -/
def has (h : Host) (path : String) : Bool := h.files.contains path || h.dirs.contains path

end Host

/-! ## What is asked for -/

/-- Where everything goes. -/
structure HostLayout where
  binary : String
  unit : String
  sysusers : String
  configDir : String
  dataDir : String

/-- `Path::join`. -/
def join (dir name : String) : String := dir ++ "/" ++ name

def HostLayout.configFile (layout : HostLayout) : String := join layout.configDir "config.toml"

/-- The four directories handed to the service's user. -/
def HostLayout.directories (layout : HostLayout) : List String :=
  [layout.configDir, join layout.configDir "tls", layout.dataDir,
    join layout.dataDir "workspaces"]

/-- The service's user and group. -/
def user : String := "passalong-server"

def unitName : String := "passalong-server.service"

/-- The line by which `service install` knows a file as its own. -/
def marker : String := "# Written by `passalong-server service install`."

def defaultLayout : HostLayout where
  binary := "/usr/local/bin/passalong-server"
  unit := join "/etc/systemd/system" unitName
  sysusers := "/etc/sysusers.d/passalong-server.conf"
  configDir := "/etc/passalong-server"
  dataDir := "/var/lib/passalong-server"

/-- Host names and addresses for a pair, and the configuration to write if there is none. -/
structure Wanted where
  names : List String
  initialConfig : String

inductive ListenMode where
  | tls
  | plain

/-- A certificate and its key. -/
structure Pair where
  cert : String
  key : String

/-- What one call of `service install` has around it, and the next one as well. -/
structure Setting where
  layout : HostLayout
  wanted : Wanted
  /-- Where this binary runs from, and its bytes. -/
  running : String
  image : Bytes
  /-- `unit.service.in`. -/
  template : String
  /-- `config::parse`, as far as `pair_of` looks at its answer. -/
  parse : String → Except String (ListenMode × Option (String × String))
  /-- `tls::self_signed`: names that make a pair make one at any time, another each time. -/
  selfSigned : List String → Except String (Nat → Pair)
  /-- The ids that `systemd-sysusers` gives out. -/
  newIds : Ids
  /-- Whether `systemctl enable` loads the unit files. -/
  enableLoads : Bool

def renderUnit (template binary : String) : String :=
  template.replace "\x7b\x7bbinary\x7d\x7d" binary

def renderSysusers (dataDir : String) : String :=
  "# The user `passalong-server serve` runs as.\n" ++ marker ++ "\nu " ++ user ++
    " - \"passalong-server\" " ++ dataDir ++ " /usr/sbin/nologin\n"

namespace Setting

def unitText (env : Setting) : String := renderUnit env.template env.layout.binary

def sysusersText (env : Setting) : String := renderSysusers env.layout.dataDir

end Setting

/-! ## The plan -/

/-- Who a file or directory is given to. -/
inductive Owner where
  | root
  /-- The service's user, looked up when the action runs. -/
  | service
  deriving DecidableEq

/-- One thing done to the host. -/
inductive Action where
  | installBinary (source target : String)
  | makeDir (path : String) (mode : Nat) (owner : Owner)
  | writeFile (path content : String) (mode : Nat) (owner : Owner)
  | makePair (certFile keyFile : String) (names : List String)
  | removeFile (path : String)
  | run (program : String) (args : List String)
  deriving DecidableEq

/-- A file `service install` writes, as it is now. -/
inductive Existing where
  | absent
  /-- There, and exactly what would be written. -/
  | same
  /-- There, written by an earlier `service install`, and different. -/
  | ours
  /-- There, and not written by `service install`. -/
  | foreign
  deriving DecidableEq

/-- `str::lines`, but for an empty last one. -/
def linesOf (text : String) : List String :=
  (text.toList.splitOn '\n').map fun line =>
    String.ofList (if line.getLast? = some '\r' then line.dropLast else line)

def Existing.of (found : Option String) (wanted : String) : Existing :=
  match found with
  | none => .absent
  | some found =>
    if found = wanted then .same
    else if marker ∈ linesOf found then .ours
    else .foreign

/-- What was found on the host before anything was done. -/
structure Found where
  running : String
  binaryInstalled : Bool
  unit : Existing
  sysusers : Existing
  configExists : Bool
  /-- Where the configuration expects the pair, if it serves TLS itself. -/
  tls : Option (String × String)
  certExists : Bool
  keyExists : Bool
  deriving DecidableEq

structure Plan where
  actions : List Action
  /-- `none` when the unit is started; otherwise why it is not. -/
  notStarted : Option String

def foreignText (path : String) : String :=
  path ++ " exists and was not written by `passalong-server service install`. " ++
    "It is left as it is; move it away if this command is to write one"

def halfText (certFile keyFile : String) : String :=
  "of the pair " ++ certFile ++ " and " ++ keyFile ++ ", one is there and the other is not. " ++
    "Nothing is written over half a pair: complete it, or remove it"

def notStartedText (layout : HostLayout) (certFile keyFile : String) : String :=
  "not started: listen.mode is \"tls\" and there is no pair at " ++ certFile ++ " and " ++
    keyFile ++ ". Put yours there, readable by " ++ user ++ ", or make one:\n  sudo -u " ++
    user ++ " " ++ layout.binary ++ " tls self-signed --host <name>\nthen:\n" ++
    "  sudo systemctl start " ++ unitName

def runSysusers (layout : HostLayout) : Action := .run "systemd-sysusers" [layout.sysusers]

def daemonReload : Action := .run "systemctl" ["daemon-reload"]

def enableUnit : Action := .run "systemctl" ["enable", unitName]

def startUnit : Action := .run "systemctl" ["start", unitName]

def restartUnit : Action := .run "systemctl" ["restart", unitName]

section Plan
variable (env : Setting) (found : Found)

/-- The binary is another one. -/
def Found.installs : Bool := found.running ≠ env.layout.binary && !found.binaryInstalled

/-- A new binary or unit reaches a running service only by a restart. -/
def Found.changed : Bool := found.installs env || found.unit ≠ .same

/-- There is a pair, or the configuration names none. -/
def Found.paired : Bool := found.tls.isNone || found.certExists && found.keyExists

/-- A pair is missing, and can be made. -/
def Found.makesPair : Bool := !found.paired && !env.wanted.names.isEmpty

def binaryActions : List Action :=
  if found.installs env then [.installBinary found.running env.layout.binary] else []

def sysusersActions : List Action :=
  if found.sysusers ≠ .same then
    [.writeFile env.layout.sysusers env.sysusersText 0o644 .root, runSysusers env.layout]
  else []

/-- Handed to the service's user before anything is put in them. -/
def dirActions : List Action :=
  env.layout.directories.map fun path => .makeDir path 0o700 .service

def configActions : List Action :=
  if found.configExists then []
  else [.writeFile env.layout.configFile env.wanted.initialConfig 0o600 .service]

def pairActions : List Action :=
  match found.tls with
  | none => []
  | some (certFile, keyFile) =>
    if found.makesPair env then [.makePair certFile keyFile env.wanted.names] else []

def unitActions : List Action :=
  if found.unit ≠ .same then
    [.writeFile env.layout.unit env.unitText 0o644 .root, daemonReload]
  else []

/-- The unit is started unless a pair is missing that is not made. -/
def Found.starts : Bool := found.paired || found.makesPair env

def startActions : List Action :=
  if found.starts env then [if found.changed env then restartUnit else startUnit] else []

def planActions : List Action :=
  binaryActions env found ++ sysusersActions env found ++ dirActions env ++
    configActions env found ++ pairActions env found ++ unitActions env found ++ [enableUnit] ++
    startActions env found

/-- `plan_install`. -/
def planInstall : Except String Plan :=
  if found.unit = .foreign then .error (foreignText env.layout.unit)
  else if found.sysusers = .foreign then .error (foreignText env.layout.sysusers)
  else
    match found.tls with
    | none => .ok ⟨planActions env found, none⟩
    | some (certFile, keyFile) =>
      if found.certExists ≠ found.keyExists then .error (halfText certFile keyFile)
      else
        .ok ⟨planActions env found,
          if found.starts env then none else notStartedText env.layout certFile keyFile⟩

end Plan

/-! ## Looking and performing -/

section
variable (env : Setting)

/-- Where the pair is expected, if the configuration serves TLS itself. -/
def pairOf (text : String) : Except String (Option (String × String)) :=
  match env.parse text with
  | .error e => .error e
  | .ok (.tls, some pair) => .ok (some pair)
  | .ok (.tls, none) =>
    .error (env.layout.configFile ++ ": listen.mode is \"tls\" and there is no [tls] section")
  | .ok (.plain, _) => .ok none

def look (h : Host) : Except String Found :=
  let there := h.read env.layout.configFile
  match pairOf env (there.getD env.wanted.initialConfig) with
  | .error e => .error e
  | .ok tls =>
    .ok {
      running := env.running
      binaryInstalled := h.binary = some env.image
      unit := Existing.of (h.read env.layout.unit) env.unitText
      sysusers := Existing.of (h.read env.layout.sysusers) env.sysusersText
      configExists := there.isSome || h.has env.layout.configFile
      tls
      certExists := tls.any fun pair => h.has pair.1
      keyExists := tls.any fun pair => h.has pair.2 }

def noUserText : String :=
  "there is no user `" ++ user ++ "`, though systemd-sysusers was asked for one"

/-- The ids of an owner. -/
def idsOf (h : Host) : Owner → Except String Ids
  | .root => .ok (0, 0)
  | .service =>
    match h.user with
    | some ids => .ok ids
    | none => .error noUserText

/-- What the service is made to run. -/
def Host.current (h : Host) : Running := ⟨h.binary, h.loaded⟩

/-- A program. One that is not known here does nothing to what is looked at. -/
def runProgram (h : Host) (program : String) (args : List String) : Host :=
  let action := Action.run program args
  if action = runSysusers env.layout then { h with user := some (h.user.getD env.newIds) }
  else if action = daemonReload then { h with loaded := h.read env.layout.unit }
  else if action = enableUnit then
    { h with
      enabled := true
      loaded := if env.enableLoads then h.read env.layout.unit else h.loaded }
  else if action = restartUnit then { h with service := some h.current }
  else if action = startUnit then { h with service := some (h.service.getD h.current) }
  else h

def Host.write (h : Host) (path content : String) (mode : Nat) (owner : Ids) : Host :=
  { h with files := h.files.insert path ⟨.text content, mode, owner⟩ }

/-- Does an action; `seed` is what makes a pair another each time. -/
def perform (seed : Nat) (h : Host) : Action → Except String Host
  | .installBinary _ _ => .ok { h with binary := some env.image }
  | .makeDir path mode owner =>
    match idsOf h owner with
    | .error e => .error e
    | .ok ids => .ok { h with dirs := h.dirs.insert path (mode, ids) }
  | .writeFile path content mode owner =>
    match idsOf h owner with
    | .error e => .error e
    | .ok ids => .ok (h.write path content mode ids)
  | .makePair certFile keyFile names =>
    match env.selfSigned names with
    | .error e => .error e
    | .ok pair =>
      match idsOf h .service with
      | .error e => .error e
      | .ok ids =>
        .ok ((h.write keyFile (pair seed).key 0o600 ids).write certFile (pair seed).cert 0o644 ids)
  | .removeFile path => .ok { h with files := h.files.erase path }
  | .run program args => .ok (runProgram env h program args)

/-- `perform_all`, as long as nothing fails. -/
def performAll (seed : Nat) (h : Host) : List Action → Except String Host
  | [] => .ok h
  | action :: rest =>
    match perform env seed h action with
    | .error e => .error e
    | .ok h' => performAll seed h' rest

/-- `service install`. -/
def install (seed : Nat) (h : Host) : Except String Host :=
  match look env h with
  | .error e => .error e
  | .ok found =>
    match planInstall env found with
    | .error e => .error e
    | .ok plan => performAll env seed h plan.actions

/-- Where an action can fail: before it has done anything, or, where it makes a pair, between
the key and the certificate. -/
inductive Failure where
  | atOnce
  | halfway
  deriving DecidableEq

/-- What an action that fails has done. -/
def failed (seed : Nat) (h : Host) : Failure → Action → Host
  | .halfway, .makePair _ keyFile names =>
    match env.selfSigned names, h.user with
    | .ok pair, some ids => h.write keyFile (pair seed).key 0o600 ids
    | _, _ => h
  | _, _ => h

end

end Service

end Passalong
