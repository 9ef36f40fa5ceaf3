import Passalong.Addresses
import Passalong.DebugText
import Passalong.Service
import Passalong.Sums

/-!
# The configuration file (`config.rs`)

`init` writes the sample with its data directory filled in, and with the TLS pair expected
beside the file. The paths are quoted the way the standard library quotes text for
debugging, and what is written is TOML. So the file is read back, with these paths and with
everything else as the sample has it, if and only if each character of the paths is one that
both treat alike (`parse_initialFile_iff`). A combining mark in a path is none of them
(`parse_initialFile_combiningMark`): the file that `init` has just written is refused.

1. `Config.File.ofDocument`: what `toml::from_str` makes of a document. Unknown keys are
   refused, and every section but `[tls]` has its defaults.
2. A line that is filled in is one lemma (`line_debugText`); what the other lines are is
   evaluated, once (`exists_sample`).
-/

namespace Passalong

open Lib.Toml
open Service (ListenMode)

deriving instance DecidableEq, Repr for Service.ListenMode

/-! ## What the file may hold -/

/-- The five levels. -/
inductive LogLevel where
  | error
  | warning
  | info
  | verbose
  | debug
  deriving DecidableEq, Repr

def LogLevel.parse (text : List Char) : Option LogLevel :=
  if text = "error".toList then some .error
  else if text = "warning".toList then some .warning
  else if text = "info".toList then some .info
  else if text = "verbose".toList then some .verbose
  else if text = "debug".toList then some .debug
  else none

namespace Config

/-- `[server]`. -/
structure Server where
  logLevel : LogLevel := .info
  dataDir : List Char := "/var/lib/passalong-server".toList
  deriving DecidableEq, Repr

/-- `[listen]`. -/
structure Listen where
  address : SocketAddr := ⟨.v4 0, 8443, 0⟩
  mode : ListenMode := .tls
  behindProxy : Bool := false
  deriving DecidableEq, Repr

/-- `[tls]`: both files, or no section. -/
structure TlsFiles where
  certFile : List Char
  keyFile : List Char
  deriving DecidableEq, Repr

/-- `[limits]`, with the one that is not about items. -/
structure AllLimits extends LimitsSection where
  authFailuresPerMinute : Nat := 10
  deriving DecidableEq, Repr

/-- The whole file. -/
structure File where
  server : Server := {}
  listen : Listen := {}
  tls : Option TlsFiles := none
  limits : AllLimits := {}
  rewrite : Rewrite := {}
  staging : Staging := {}
  deriving DecidableEq, Repr

end Config

/-! ## How it is read -/

/-- Why `toml::from_str` gives nothing. -/
inductive TomlError where
  | malformed (fault : Flaw)
  | unknownKey (key : String)
  | missingKey (key : String)
  | mistyped (value : Value)
  | custom (message : String)
  deriving DecidableEq, Repr

inductive ConfigError where
  | file (path : List Char) (error : TomlError)
  /-- The level that the environment names is none. -/
  | level (value : String)
  /-- Plain HTTP on an address that is not a loopback address, and no proxy. -/
  | plain (path : List Char) (address : SocketAddr)
  deriving DecidableEq, Repr

/-- A size: a number of bytes, alone or with a unit; or `unlimited`, which is `none`. -/
def parseSize (text : List Char) : Except String (Option Nat) :=
  if text = "unlimited".toList then .ok none
  else
    let number := text.takeWhile Char.isDigit
    let unit := text.dropWhile Char.isDigit
    let trimmed := unit.dropWhile (· = ' ')
    let shift :=
      if trimmed = [] then some 0
      else if trimmed = "KiB".toList then some 10
      else if trimmed = "MiB".toList then some 20
      else if trimmed = "GiB".toList then some 30
      else if trimmed = "TiB".toList then some 40
      else none
    match shift with
    | none =>
      .error ("`" ++ String.ofList text ++
        "` is not a size: write a number of bytes, or one with " ++
        "KiB, MiB, GiB, or TiB, such as \"20 GiB\"")
    | some shift =>
      match (parseU64 number).filter fun _ => unit.length - trimmed.length ≤ 1 with
      | none =>
        .error ("`" ++ String.ofList text ++ "` is not a size: it must start with a whole number")
      | some n =>
        if n * 2 ^ shift < u64Bound then .ok (some (n * 2 ^ shift))
        else .error ("`" ++ String.ofList text ++ "` is more bytes than can be counted")

namespace Reader

def path : Value → Except TomlError (List Char)
  | .string text => .ok text
  | value => .error (.mistyped value)

def boolean : Value → Except TomlError Bool
  | .boolean b => .ok b
  | value => .error (.mistyped value)

/-- A number below a bound. -/
def number (bound : Nat) : Value → Except TomlError Nat
  | .integer n => if n < bound then .ok n else .error (.mistyped (.integer n))
  | value => .error (.mistyped value)

/-- A text that stands for something. -/
def text {α : Type} (of : List Char → Option α) : Value → Except TomlError α
  | .string text =>
    match of text with
    | some a => .ok a
    | none => .error (.mistyped (.string text))
  | value => .error (.mistyped value)

/-- `size_or_unlimited` -/
def sizeOrUnlimited : Value → Except TomlError (Option Nat)
  | .integer n => .ok (some n)
  | .string text =>
    match parseSize text with
    | .ok size => .ok size
    | .error message => .error (.custom message)
  | value => .error (.mistyped value)

/-- `size` -/
def size (value : Value) : Except TomlError Nat := do
  match ← sizeOrUnlimited value with
  | some size => return size
  | none => .error (.custom "a quota cannot be \"unlimited\": the disk is not")

def mode (text : List Char) : Option ListenMode :=
  if text = "tls".toList then some .tls
  else if text = "plain".toList then some .plain
  else none

end Reader

abbrev Pairs := List (String × Value)

/-- `deny_unknown_fields` -/
def denyUnknown {α : Type} (known : List String) (fields : List (String × α)) :
    Except TomlError Unit :=
  match fields.find? fun field => field.1 ∉ known with
  | some (key, _) => .error (.unknownKey key)
  | none => .ok ()

/-- A field with a default. -/
def fieldOr {α : Type} (pairs : Pairs) (key : String) (of : Value → Except TomlError α)
    (default : α) : Except TomlError α :=
  match pairs.lookup key with
  | some value => of value
  | none => .ok default

/-- A field without one. -/
def fieldOf {α : Type} (pairs : Pairs) (key : String) (of : Value → Except TomlError α) :
    Except TomlError α :=
  match pairs.lookup key with
  | some value => of value
  | none => .error (.missingKey key)

namespace Config

def Server.ofPairs (pairs : Pairs) : Except TomlError Server := do
  denyUnknown ["log_level", "data_dir"] pairs
  let default : Server := {}
  return {
    logLevel := ← fieldOr pairs "log_level" (Reader.text LogLevel.parse) default.logLevel
    dataDir := ← fieldOr pairs "data_dir" Reader.path default.dataDir }

def Listen.ofPairs (pairs : Pairs) : Except TomlError Listen := do
  denyUnknown ["address", "mode", "behind_proxy"] pairs
  let default : Listen := {}
  return {
    address := ← fieldOr pairs "address" (Reader.text parseSocketAddr) default.address
    mode := ← fieldOr pairs "mode" (Reader.text Reader.mode) default.mode
    behindProxy := ← fieldOr pairs "behind_proxy" Reader.boolean default.behindProxy }

def TlsFiles.ofPairs (pairs : Pairs) : Except TomlError TlsFiles := do
  denyUnknown ["cert_file", "key_file"] pairs
  return {
    certFile := ← fieldOf pairs "cert_file" Reader.path
    keyFile := ← fieldOf pairs "key_file" Reader.path }

def AllLimits.ofPairs (pairs : Pairs) : Except TomlError AllLimits := do
  denyUnknown ["max_item_bytes", "workspace_quota_bytes", "auth_failures_per_minute"] pairs
  let default : AllLimits := {}
  return {
    maxItemBytes := ← fieldOr pairs "max_item_bytes" Reader.sizeOrUnlimited default.maxItemBytes
    workspaceQuotaBytes :=
      ← fieldOr pairs "workspace_quota_bytes" Reader.size default.workspaceQuotaBytes
    authFailuresPerMinute :=
      ← fieldOr pairs "auth_failures_per_minute" (Reader.number (2 ^ 32))
        default.authFailuresPerMinute }

def Rewrite.ofPairs (pairs : Pairs) : Except TomlError Rewrite := do
  denyUnknown ["lease_secs"] pairs
  let default : Rewrite := {}
  return { leaseSecs := ← fieldOr pairs "lease_secs" (Reader.number u64Bound) default.leaseSecs }

def Staging.ofPairs (pairs : Pairs) : Except TomlError Staging := do
  denyUnknown ["max_age_hours"] pairs
  let default : Staging := {}
  return {
    maxAgeHours := ← fieldOr pairs "max_age_hours" (Reader.number u64Bound) default.maxAgeHours }

/-- A section that may be left out. -/
def sectionOr {α : Type} (doc : Document) (name : String) (of : Pairs → Except TomlError α)
    (default : α) : Except TomlError α :=
  match doc.tables.lookup name with
  | some pairs => of pairs
  | none => .ok default

/-- The sections are tables: a pair that stands before them all is none of them. -/
def File.ofDocument (doc : Document) : Except TomlError File := do
  denyUnknown [] doc.root
  denyUnknown ["server", "listen", "tls", "limits", "rewrite", "staging"] doc.tables
  let default : File := {}
  return {
    server := ← sectionOr doc "server" Server.ofPairs default.server
    listen := ← sectionOr doc "listen" Listen.ofPairs default.listen
    tls := ← sectionOr doc "tls" (fun pairs => some <$> TlsFiles.ofPairs pairs) default.tls
    limits := ← sectionOr doc "limits" AllLimits.ofPairs default.limits
    rewrite := ← sectionOr doc "rewrite" Rewrite.ofPairs default.rewrite
    staging := ← sectionOr doc "staging" Staging.ofPairs default.staging }

/-- `toml::from_str` -/
def File.fromStr (text : List Char) : Except TomlError File :=
  match Document.parse text with
  | .ok doc => File.ofDocument doc
  | .error fault => .error (.malformed fault)

/-- The level that the environment asks for; empty counts as unset. -/
def withLevel (var : String → Option String) (config : File) : Except ConfigError File :=
  match (var "PASSALONG_SERVER_LOG_LEVEL").filter (· ≠ "") with
  | none => .ok config
  | some level =>
    match LogLevel.parse level.toList with
    | some logLevel => .ok { config with server := { config.server with logLevel } }
    | none => .error (.level level)

/-- `parse`: the text of the file at `path`, validated. -/
def parse (text path : List Char) (var : String → Option String) : Except ConfigError File := do
  let config ←
    match File.fromStr text with
    | .ok config => .ok config
    | .error error => .error (.file path error)
  let config ← withLevel var config
  let isPublic := !config.listen.address.ip.isLoopback
  if config.listen.mode = .plain ∧ isPublic ∧ !config.listen.behindProxy then
    .error (.plain path config.listen.address)
  else return config

end Config

/-! ## The file that `init` writes -/

/-- `Path::join` -/
def pathJoin (path child : List Char) : List Char :=
  if child.head? = some '/' then child
  else if path = [] ∨ path.getLast? = some '/' then path ++ child
  else path ++ '/' :: child

namespace Config

/-- The lines of `config.sample.toml`. -/
def SAMPLE : List String := [
  "# passalong-server configuration. `passalong-server init` writes this file",
  "# with your data directory filled in; by hand, copy it to",
  "# /etc/passalong-server/config.toml. Every key is documented in",
  "# docs/configuration.md, and an unknown key is an error. No secret goes here:",
  "# the server has none of its own.",
  "",
  "[server]",
  "# error | warning | info | verbose | debug",
  "log_level = \"info\"",
  "# Workspaces, the control database, and staging live below this directory.",
  "data_dir = \"/var/lib/passalong-server\"",
  "",
  "[listen]",
  "address = \"0.0.0.0:8443\"",
  "# \"tls\": the server speaks HTTPS itself, with the files under [tls].",
  "# \"plain\": plain HTTP for a TLS-terminating reverse proxy. Refused on a",
  "# non-loopback address unless behind_proxy = true says you mean it.",
  "mode = \"tls\"",
  "behind_proxy = false",
  "",
  "[tls]",
  "# PEM files, re-read when they change, so renewals need no restart.",
  "cert_file = \"/etc/passalong-server/tls/cert.pem\"",
  "key_file = \"/etc/passalong-server/tls/key.pem\"",
  "",
  "[limits]",
  "# Largest single item, or \"unlimited\", the default. Uploads stream to disk,",
  "# so this is not memory. The quota is the real bound: an upload is refused",
  "# when it begins unless it fits. Set a size only to keep one item from",
  "# taking a whole workspace; docs/configuration.md has the reasoning.",
  "max_item_bytes = \"unlimited\"",
  "# Default quota of a new workspace; `workspace create --quota` overrides it.",
  "workspace_quota_bytes = \"20 GiB\"",
  "# Failed authentications per client address per minute before 429; 0 turns",
  "# the limit off. Behind a proxy the address is the last X-Forwarded-For entry.",
  "auth_failures_per_minute = 10",
  "",
  "[rewrite]",
  "# How long a rewrite session (encrypt migration or --rotate) stays its",
  "# holder's without a heartbeat, before another device may take it over.",
  "lease_secs = 600",
  "",
  "[staging]",
  "# Uploads and rewrite sessions nobody finished are removed after this long.",
  "# A committed upload's outcome is kept at least as long, for retries.",
  "max_age_hours = 24"]

section

variable [CharTables]

/-- What `init` makes of a line of the sample. -/
def fillIn (dataDir configDir text : List Char) : List Char :=
  if "data_dir = ".toList.isPrefixOf text then "data_dir = ".toList ++ debugText dataDir
  else if "cert_file = ".toList.isPrefixOf text then
    "cert_file = ".toList ++ debugText (pathJoin configDir "tls/cert.pem".toList)
  else if "key_file = ".toList.isPrefixOf text then
    "key_file = ".toList ++ debugText (pathJoin configDir "tls/key.pem".toList)
  else text

/-- `initial_file` -/
def initialFile (dataDir configDir : List Char) : List Char :=
  ['\n'].intercalate (SAMPLE.map fun text => fillIn dataDir configDir text.toList) ++ ['\n']

end

/-- The text of the sample. -/
def sampleText : List Char := ['\n'].intercalate (SAMPLE.map String.toList) ++ ['\n']

/-! ## Its lines -/

/-- Ending the last line is adding an empty one. -/
theorem intercalate_concat {α : Type} (sep : List α) {texts : List (List α)} (hne : texts ≠ []) :
    sep.intercalate (texts ++ [[]]) = sep.intercalate texts ++ sep := by
  induction texts with
  | nil => exact absurd rfl hne
  | cons text texts ih =>
    cases texts with
    | nil => simp
    | cons second texts =>
      have hrest := ih (List.cons_ne_nil _ _)
      rw [List.cons_append, List.intercalate_cons_of_ne_nil (by simp), hrest,
        List.intercalate_cons_cons]
      simp only [List.append_assoc]

/-- A document that ends its last line is its lines. -/
theorem parse_lines {texts : List (List Char)} (hne : texts ≠ [])
    (hend : ∀ text ∈ texts, '\n' ∉ text) :
    Document.parse (['\n'].intercalate texts ++ ['\n']) =
      texts.mapM line >>= fun lines => lines.foldlM Document.add {} := by
  have hsplit : (['\n'].intercalate texts ++ ['\n']).splitOn '\n' = texts ++ [[]] := by
    rw [← intercalate_concat _ hne]
    refine List.splitOn_intercalate '\n' ?_ (by simp)
    intro text htext
    rcases List.mem_append.mp htext with htext | htext
    · exact hend text htext
    · rw [List.mem_singleton.mp htext]
      exact List.not_mem_nil
  unfold Document.parse
  rw [hsplit, List.mapM_append]
  cases texts.mapM line with
  | error fault => rfl
  | ok lines =>
    show (lines ++ [Line.blank]).foldlM Document.add {} = lines.foldlM Document.add {}
    rw [List.foldlM_append]
    cases lines.foldlM Document.add {} with
    | error fault => rfl
    | ok doc => rfl

/-- A line that assigns a text in quotes, as far as it is read. -/
def assigned (key rest : List Char) : Except Flaw Line :=
  match basicString rest with
  | .ok (text, after) => (endOfLine after).map fun _ => .pair (String.ofList key) (.string text)
  | .error fault => .error fault

theorem value_string {rest : List Char} (htriple : ∀ after, rest ≠ '"' :: '"' :: after) :
    value ('"' :: rest) = (basicString rest).map fun read => (.string read.1, read.2) := by
  rw [value.eq_def]
  split
  · next h => exact absurd (List.cons.inj h).2 (htriple _)
  · next h =>
    cases h
    cases basicString rest with
    | ok read => rfl
    | error fault => rfl
  · next h => exact absurd rfl (h _)

theorem takeWhile_isBare {key : List Char} (hkey : ∀ c ∈ key, isBare c) (rest : List Char) :
    (key ++ ' ' :: rest).takeWhile isBare = key ∧
      (key ++ ' ' :: rest).dropWhile isBare = ' ' :: rest := by
  have hspace : ¬isBare ' ' = true := by decide
  constructor
  · rw [List.takeWhile_append_of_pos hkey, List.takeWhile_cons_of_neg hspace, List.append_nil]
  · rw [List.dropWhile_append_of_pos hkey, List.dropWhile_cons_of_neg hspace]

/-- A key, and a text in quotes. -/
theorem pair_assign {key rest : List Char} (hkey : ∀ c ∈ key, isBare c) (hne : key ≠ [])
    (htriple : ∀ after, rest ≠ '"' :: '"' :: after) :
    pair (key ++ ' ' :: '=' :: ' ' :: '"' :: rest) = assigned key rest := by
  obtain ⟨htake, hdrop⟩ := takeWhile_isBare hkey ('=' :: ' ' :: '"' :: rest)
  obtain ⟨c, cs, rfl⟩ := List.exists_cons_of_ne_nil hne
  have hafter : (' ' :: '=' :: ' ' :: '"' :: rest).dropWhile isBlank =
      '=' :: ' ' :: '"' :: rest := rfl
  have hquote : (' ' :: '"' :: rest).dropWhile isBlank = '"' :: rest := rfl
  unfold pair
  rw [htake, hdrop, hafter]
  show (value ((' ' :: '"' :: rest).dropWhile isBlank) >>= fun read =>
    endOfLine read.2 >>= fun _ => pure (Line.pair (String.ofList (c :: cs)) read.1)) = _
  rw [hquote, value_string htriple]
  unfold assigned
  cases basicString rest with
  | error fault => rfl
  | ok read =>
    obtain ⟨text, after⟩ := read
    show (endOfLine after >>= fun _ => _) = (endOfLine after).map _
    cases endOfLine after with
    | error fault => rfl
    | ok => rfl

theorem line_assign {key rest : List Char} (hkey : ∀ c ∈ key, isBare c) (hne : key ≠ [])
    (hreturn : '\r' ∉ rest) (htriple : ∀ after, rest ≠ '"' :: '"' :: after) :
    line (key ++ ' ' :: '=' :: ' ' :: '"' :: rest) = assigned key rest := by
  have hall : '\r' ∉ key ++ ' ' :: '=' :: ' ' :: '"' :: rest := by
    intro hmem
    rcases List.mem_append.mp hmem with hmem | hmem
    · have hbare := hkey _ hmem
      revert hbare
      decide
    · simp [hreturn] at hmem
  rw [← pair_assign hkey hne htriple]
  obtain ⟨c, cs, rfl⟩ := List.exists_cons_of_ne_nil hne
  have hbare : ∀ d : Char, isBare d = false → c ≠ d := by
    rintro d hd rfl
    rw [hkey _ List.mem_cons_self] at hd
    cases hd
  have hblank : isBlank c = false := by
    unfold isBlank
    rw [decide_eq_false (hbare ' ' (by decide)), decide_eq_false (hbare '\t' (by decide))]
    rfl
  unfold line
  rw [if_neg hall, List.cons_append, List.dropWhile_cons_of_neg (by simp [hblank])]
  split
  · next h => cases h
  · next h => exact absurd (List.cons.inj h).1 (hbare '#' (by decide))
  · next h => exact absurd (List.cons.inj h).1 (hbare '[' (by decide))
  · rfl

/-! ## The lines that are filled in -/

section

variable [CharTables]

theorem assigned_debugText {key text : List Char} :
    assigned key (text.flatMap escapeDebug ++ ['"']) =
      if ∀ c ∈ text, Kept c then .ok (.pair (String.ofList key) (.string text))
      else .error .invalid := by
  unfold assigned
  by_cases h : ∀ c ∈ text, Kept c
  · rw [basicString_flatMap_of_kept [] h, if_pos h]
    rfl
  · rw [basicString_flatMap_of_not_kept [] h, if_neg h]

/-- Inside of the quotes there is no quote without a backslash. -/
theorem exists_escapeDebug (c : Char) : ∃ d rest, escapeDebug c = d :: rest ∧ d ≠ '"' := by
  by_cases hkept : Kept c
  · by_cases hmem : c ∈ ['\t', '\r', '\n', '\\', '"']
    · simp only [List.mem_cons, List.not_mem_nil, or_false] at hmem
      obtain rfl | rfl | rfl | rfl | rfl := hmem
      all_goals exact ⟨'\\', _, rfl, by decide⟩
    · obtain ⟨hextended, hprintable⟩ := hkept.resolve_left hmem
      refine ⟨c, [], escapeDebug_of_printable hmem hextended hprintable, ?_⟩
      rintro rfl
      simp at hmem
  · rw [escapeDebug_of_not_kept hkept]
    split
    · exact ⟨'\\', _, rfl, by decide⟩
    · exact ⟨'\\', _, rfl, by decide⟩

/-- No text in quotes begins with three quotes. -/
theorem flatMap_escapeDebug_ne {text : List Char} (after : List Char) :
    text.flatMap escapeDebug ++ ['"'] ≠ '"' :: '"' :: after := by
  intro h
  cases text with
  | nil => simp at h
  | cons c text =>
    obtain ⟨d, rest, hc, hd⟩ := exists_escapeDebug c
    rw [List.flatMap_cons, hc] at h
    exact hd (List.cons.inj h).1

/-- **A path is read back from its line, or the line is none.** -/
theorem line_debugText {key : List Char} (text : List Char) (hkey : key.all isBare)
    (hne : key ≠ []) :
    line (key ++ " = ".toList ++ debugText text) =
      if ∀ c ∈ text, Kept c then .ok (.pair (String.ofList key) (.string text))
      else .error .invalid := by
  rw [← assigned_debugText]
  have hreturn : '\r' ∉ text.flatMap escapeDebug ++ ['"'] := fun hmem =>
    (ne_lineEnd_of_mem_debugText (List.mem_cons_of_mem '"' hmem)).2 rfl
  have hline := line_assign (List.all_eq_true.mp hkey) hne hreturn flatMap_escapeDebug_ne
  rw [← hline]
  simp [debugText]

/-! ## The whole file -/

/-- A child of printable ASCII, and no path from the root, adds nothing that is not kept. -/
theorem kept_pathJoin (path : List Char) {child : List Char}
    (hascii : child.all fun c => 0x20 ≤ c.toNat && c.toNat < 0x7f)
    (hslash : child.head? ≠ some '/') :
    (∀ c ∈ pathJoin path child, Kept c) ↔ ∀ c ∈ path, Kept c := by
  have hchild : ∀ c ∈ child, Kept c := fun c hc =>
    kept_of_ascii (by simpa using List.all_eq_true.mp hascii c hc)
  have hsep : Kept '/' := kept_of_ascii (by decide)
  unfold pathJoin
  rw [if_neg hslash]
  split
  · simp only [List.forall_mem_append, and_iff_left hchild]
  · simp only [List.forall_mem_append, List.forall_mem_cons, and_iff_left hchild, and_iff_left hsep]

/-- What is left alone of the sample. -/
def isFixed (text : List Char) : Bool :=
  !"data_dir = ".toList.isPrefixOf text && !"cert_file = ".toList.isPrefixOf text &&
    !"key_file = ".toList.isPrefixOf text

theorem fillIn_of_isFixed {dataDir configDir text : List Char} (h : isFixed text) :
    fillIn dataDir configDir text = text := by
  simp only [isFixed, Bool.and_eq_true, Bool.not_eq_true'] at h
  unfold fillIn
  rw [h.1.1, h.1.2, h.2]
  rfl

end

/-- The lines before the data directory. -/
def serverLines : List Line :=
  List.replicate 6 .blank ++ [.header "server", .blank, .pair "log_level" (.string "info".toList),
    .blank]

/-- The lines between the data directory and the pair. -/
def listenLines : List Line :=
  [.blank, .header "listen", .pair "address" (.string "0.0.0.0:8443".toList), .blank, .blank,
    .blank, .pair "mode" (.string "tls".toList), .pair "behind_proxy" (.boolean false), .blank,
    .header "tls", .blank]

/-- The lines after the pair. -/
def limitsLines : List Line :=
  [.blank, .header "limits", .blank, .blank, .blank, .blank,
    .pair "max_item_bytes" (.string "unlimited".toList), .blank,
    .pair "workspace_quota_bytes" (.string "20 GiB".toList), .blank, .blank,
    .pair "auth_failures_per_minute" (.integer 10), .blank, .header "rewrite", .blank, .blank,
    .pair "lease_secs" (.integer 600), .blank, .header "staging", .blank, .blank,
    .pair "max_age_hours" (.integer 24)]

/-- All lines, with the paths in their places. -/
def allLines (dataDir certFile keyFile : List Char) : List Line :=
  serverLines ++ .pair "data_dir" (.string dataDir) ::
    (listenLines ++ .pair "cert_file" (.string certFile) ::
      .pair "key_file" (.string keyFile) :: limitsLines)

/-- The document they make. -/
def document (dataDir certFile keyFile : List Char) : Document where
  tables := [
    ("staging", [("max_age_hours", .integer 24)]),
    ("rewrite", [("lease_secs", .integer 600)]),
    ("limits", [("auth_failures_per_minute", .integer 10),
      ("workspace_quota_bytes", .string "20 GiB".toList),
      ("max_item_bytes", .string "unlimited".toList)]),
    ("tls", [("key_file", .string keyFile), ("cert_file", .string certFile)]),
    ("listen", [("behind_proxy", .boolean false), ("mode", .string "tls".toList),
      ("address", .string "0.0.0.0:8443".toList)]),
    ("server", [("data_dir", .string dataDir), ("log_level", .string "info".toList)])]

theorem add_allLines (dataDir certFile keyFile : List Char) :
    (allLines dataDir certFile keyFile).foldlM Document.add {} =
      .ok (document dataDir certFile keyFile) := rfl

theorem ofDocument_document (dataDir certFile keyFile : List Char) :
    File.ofDocument (document dataDir certFile keyFile) =
      .ok { server := { dataDir }, tls := some ⟨certFile, keyFile⟩ } := by
  have hserver : ∀ default, sectionOr (document dataDir certFile keyFile) "server"
      Server.ofPairs default = .ok { dataDir } := fun _ => rfl
  have hlisten : Listen.ofPairs [("behind_proxy", .boolean false), ("mode", .string "tls".toList),
      ("address", .string "0.0.0.0:8443".toList)] = .ok {} := by decide +kernel
  have hlisten' : ∀ default, sectionOr (document dataDir certFile keyFile) "listen"
      Listen.ofPairs default = .ok {} := fun _ => hlisten
  have htls : ∀ default, sectionOr (document dataDir certFile keyFile) "tls"
      (fun pairs => some <$> TlsFiles.ofPairs pairs) default = .ok (some ⟨certFile, keyFile⟩) :=
    fun _ => rfl
  have hlimits : AllLimits.ofPairs [("auth_failures_per_minute", .integer 10),
      ("workspace_quota_bytes", .string "20 GiB".toList),
      ("max_item_bytes", .string "unlimited".toList)] = .ok {} := by decide +kernel
  have hlimits' : ∀ default, sectionOr (document dataDir certFile keyFile) "limits"
      AllLimits.ofPairs default = .ok {} := fun _ => hlimits
  have hrewrite : Rewrite.ofPairs [("lease_secs", .integer 600)] = .ok {} := by decide +kernel
  have hrewrite' : ∀ default, sectionOr (document dataDir certFile keyFile) "rewrite"
      Rewrite.ofPairs default = .ok {} := fun _ => hrewrite
  have hstaging : Staging.ofPairs [("max_age_hours", .integer 24)] = .ok {} := by decide +kernel
  have hstaging' : ∀ default, sectionOr (document dataDir certFile keyFile) "staging"
      Staging.ofPairs default = .ok {} := fun _ => hstaging
  have hroot : denyUnknown [] (document dataDir certFile keyFile).root = .ok () := rfl
  have htables : denyUnknown ["server", "listen", "tls", "limits", "rewrite", "staging"]
      (document dataDir certFile keyFile).tables = .ok () := rfl
  unfold File.ofDocument
  rw [hroot, htables]
  simp only [hserver, hlisten', htls, hlimits', hrewrite', hstaging']
  rfl

/-- The check of the listener lets the sample's through. -/
theorem parse_of_lines {texts : List (List Char)} {dataDir certFile keyFile : List Char}
    (path : List Char) {var : String → Option String} (hne : texts ≠ [])
    (hend : ∀ text ∈ texts, '\n' ∉ text)
    (hlines : texts.mapM line = .ok (allLines dataDir certFile keyFile))
    (hvar : (var "PASSALONG_SERVER_LOG_LEVEL").filter (· ≠ "") = none) :
    parse (['\n'].intercalate texts ++ ['\n']) path var =
      .ok { server := { dataDir }, tls := some ⟨certFile, keyFile⟩ } := by
  have hdoc := parse_lines hne hend
  rw [hlines] at hdoc
  have hfile : File.fromStr (['\n'].intercalate texts ++ ['\n']) =
      .ok { server := { dataDir }, tls := some ⟨certFile, keyFile⟩ } := by
    unfold File.fromStr
    rw [hdoc]
    show (match (allLines dataDir certFile keyFile).foldlM Document.add {} with
      | .ok doc => File.ofDocument doc
      | .error fault => .error (.malformed fault)) = _
    rw [add_allLines]
    exact ofDocument_document dataDir certFile keyFile
  unfold parse
  rw [hfile]
  show (withLevel var _ >>= fun _ => _) = _
  unfold withLevel
  rw [hvar]
  rfl

theorem mapM_of_line_error {texts : List (List Char)} {text : List Char} {fault : Flaw}
    (hmem : text ∈ texts) (hline : line text = .error fault) :
    ∃ fault, texts.mapM line = .error fault := by
  induction texts with
  | nil => cases hmem
  | cons first texts ih =>
    rw [List.mapM_cons]
    cases hfirst : line first with
    | error fault => exact ⟨fault, rfl⟩
    | ok read =>
      rcases List.mem_cons.mp hmem with rfl | hmem
      · rw [hline] at hfirst
        cases hfirst
      · obtain ⟨fault, hrest⟩ := ih hmem
        exact ⟨fault, by rw [hrest]; rfl⟩

/-- A file with a line that is none is refused. -/
theorem parse_of_line_error {texts : List (List Char)} {text : List Char} {fault : Flaw}
    (path : List Char) (var : String → Option String) (hend : ∀ text ∈ texts, '\n' ∉ text)
    (hmem : text ∈ texts) (hline : line text = .error fault) :
    ∃ error, parse (['\n'].intercalate texts ++ ['\n']) path var = .error error := by
  obtain ⟨fault, hlines⟩ := mapM_of_line_error hmem hline
  have hdoc := parse_lines (List.ne_nil_of_mem hmem) hend
  rw [hlines] at hdoc
  refine ⟨.file path (.malformed fault), ?_⟩
  unfold parse File.fromStr
  rw [hdoc]
  rfl

/-! ## The sample and what is made of it -/

/-- The characters of some lines, text for text. -/
theorem map_toList_cons {text : String} {texts : List String} {cs : List Char}
    {css : List (List Char)} (h : text = String.ofList cs) (hs : texts.map String.toList = css) :
    (text :: texts).map String.toList = cs :: css := by
  rw [List.map_cons, h, String.toList_ofList, hs]

/-- The sample as far as it is read on its own: what stands before, between and behind the
lines that `init` fills in. -/
theorem exists_sample : ∃ front middle back : List (List Char),
    SAMPLE.map String.toList = front ++ "data_dir = \"/var/lib/passalong-server\"".toList ::
      (middle ++ "cert_file = \"/etc/passalong-server/tls/cert.pem\"".toList ::
        "key_file = \"/etc/passalong-server/tls/key.pem\"".toList :: back) ∧
    (front.mapM line = .ok serverLines ∧ middle.mapM line = .ok listenLines ∧
      back.mapM line = .ok limitsLines) ∧
    ∀ text ∈ front ++ middle ++ back, isFixed text ∧ '\n' ∉ text := by
  have hcss : ∃ css, SAMPLE.map String.toList = css ∧
      css = css.take 10 ++ "data_dir = \"/var/lib/passalong-server\"".toList ::
        ((css.drop 11).take 11 ++ "cert_file = \"/etc/passalong-server/tls/cert.pem\"".toList ::
          "key_file = \"/etc/passalong-server/tls/key.pem\"".toList :: css.drop 24) ∧
      ((css.take 10).mapM line = .ok serverLines ∧
        ((css.drop 11).take 11).mapM line = .ok listenLines ∧
        (css.drop 24).mapM line = .ok limitsLines) ∧
      ∀ text ∈ css.take 10 ++ (css.drop 11).take 11 ++ css.drop 24,
        isFixed text ∧ '\n' ∉ text := by
    apply Exists.intro
    apply And.intro
    case left =>
      unfold SAMPLE
      extract_lets
      repeat apply map_toList_cons rfl
      exact List.map_nil
    case right => decide +kernel
  obtain ⟨css, hcss, hparts, hlines, hfixed⟩ := hcss
  exact ⟨css.take 10, (css.drop 11).take 11, css.drop 24, hcss.trans hparts, hlines, hfixed⟩

/-- With three lines in their places the sample is read as a whole. -/
theorem mapM_allLines {front middle back : List (List Char)}
    {d c k dataDir certFile keyFile : List Char}
    (hlines : front.mapM line = .ok serverLines ∧ middle.mapM line = .ok listenLines ∧
      back.mapM line = .ok limitsLines)
    (hd : line d = .ok (.pair "data_dir" (.string dataDir)))
    (hc : line c = .ok (.pair "cert_file" (.string certFile)))
    (hk : line k = .ok (.pair "key_file" (.string keyFile))) :
    (front ++ d :: (middle ++ c :: k :: back)).mapM line =
      .ok (allLines dataDir certFile keyFile) := by
  obtain ⟨hfront, hmiddle, hback⟩ := hlines
  rw [List.mapM_append, List.mapM_cons, List.mapM_append, List.mapM_cons, List.mapM_cons,
    hfront, hd, hmiddle, hc, hk, hback]
  rfl

theorem ne_lineEnd_of_parts {front middle back : List (List Char)} {d c k : List Char}
    (hparts : ∀ text ∈ front ++ middle ++ back, isFixed text ∧ '\n' ∉ text) (hd : '\n' ∉ d)
    (hc : '\n' ∉ c) (hk : '\n' ∉ k) :
    ∀ text ∈ front ++ d :: (middle ++ c :: k :: back), '\n' ∉ text := by
  simp only [List.forall_mem_append, List.forall_mem_cons] at hparts ⊢
  obtain ⟨⟨hfront, hmiddle⟩, hback⟩ := hparts
  exact ⟨fun text h => (hfront text h).2, hd, fun text h => (hmiddle text h).2, hc, hk,
    fun text h => (hback text h).2⟩

/-- **The sample is a configuration.** -/
theorem parse_sampleText (path : List Char) {var : String → Option String}
    (hvar : (var "PASSALONG_SERVER_LOG_LEVEL").filter (· ≠ "") = none) :
    parse sampleText path var = .ok {
      tls := some ⟨"/etc/passalong-server/tls/cert.pem".toList,
        "/etc/passalong-server/tls/key.pem".toList⟩ } := by
  obtain ⟨front, middle, back, hsample, hlines, hparts⟩ := exists_sample
  unfold sampleText
  rw [hsample]
  refine parse_of_lines path (by simp) (ne_lineEnd_of_parts hparts ?_ ?_ ?_)
    (mapM_allLines hlines ?_ ?_ ?_) hvar
  all_goals decide +kernel

/-- The keys of the lines that `init` fills in. -/
theorem filledKeys :
    ∀ key ∈ ["data_dir".toList, "cert_file".toList, "key_file".toList],
      '\n' ∉ key ∧ key.all isBare ∧ key ≠ [] := by
  simp only [List.forall_mem_cons]
  simp
  decide

/-- The pair of files next to the configuration. -/
theorem pairFiles :
    ∀ child ∈ ["tls/cert.pem".toList, "tls/key.pem".toList],
      (child.all fun c => 0x20 ≤ c.toNat && c.toNat < 0x7f) ∧ child.head? ≠ some '/' := by
  simp only [List.forall_mem_cons]
  simp

section

variable [CharTables]

theorem map_fillIn {front middle back : List (List Char)} (dataDir configDir : List Char)
    (hparts : ∀ text ∈ front ++ middle ++ back, isFixed text ∧ '\n' ∉ text)
    (hsample : SAMPLE.map String.toList =
      front ++ "data_dir = \"/var/lib/passalong-server\"".toList ::
        (middle ++ "cert_file = \"/etc/passalong-server/tls/cert.pem\"".toList ::
          "key_file = \"/etc/passalong-server/tls/key.pem\"".toList :: back)) :
    SAMPLE.map (fun text => fillIn dataDir configDir text.toList) =
      front ++ ("data_dir".toList ++ " = ".toList ++ debugText dataDir) ::
        (middle ++
          ("cert_file".toList ++ " = ".toList ++
            debugText (pathJoin configDir "tls/cert.pem".toList)) ::
          ("key_file".toList ++ " = ".toList ++
            debugText (pathJoin configDir "tls/key.pem".toList)) :: back) := by
  have hfixed : ∀ texts ⊆ front ++ middle ++ back,
      texts.map (fillIn dataDir configDir) = texts := by
    intro texts hsub
    conv_rhs => rw [← List.map_id texts]
    exact List.map_congr_left fun text htext => fillIn_of_isFixed (hparts text (hsub htext)).1
  have hmap : SAMPLE.map (fun text => fillIn dataDir configDir text.toList) =
      (SAMPLE.map String.toList).map (fillIn dataDir configDir) := by
    rw [List.map_map]
    rfl
  rw [hmap, hsample, List.map_append, List.map_cons, List.map_append, List.map_cons,
    List.map_cons, hfixed front (by simp), hfixed middle (by simp), hfixed back (by simp)]
  rfl

theorem ne_lineEnd_of_debugText {key : List Char} (text : List Char) (hkey : '\n' ∉ key) :
    '\n' ∉ key ++ " = ".toList ++ debugText text := by
  intro h
  rcases List.mem_append.mp h with h | h
  · rcases List.mem_append.mp h with h | h
    · exact hkey h
    · simp at h
  · exact (ne_lineEnd_of_mem_debugText h).1 rfl

theorem kept_pairFile {child : List Char} (configDir : List Char)
    (h : child ∈ ["tls/cert.pem".toList, "tls/key.pem".toList]) :
    (∀ c ∈ pathJoin configDir child, Kept c) ↔ ∀ c ∈ configDir, Kept c :=
  kept_pathJoin configDir (pairFiles child h).1 (pairFiles child h).2

/-- **The file that `init` writes is read back if its paths are kept.** -/
theorem parse_initialFile_of_kept {dataDir configDir : List Char} (path : List Char)
    {var : String → Option String} (hkept : ∀ c ∈ dataDir ++ configDir, Kept c)
    (hvar : (var "PASSALONG_SERVER_LOG_LEVEL").filter (· ≠ "") = none) :
    parse (initialFile dataDir configDir) path var = .ok {
      server := { dataDir }
      tls := some ⟨pathJoin configDir "tls/cert.pem".toList,
        pathJoin configDir "tls/key.pem".toList⟩ } := by
  obtain ⟨front, middle, back, hsample, hlines, hparts⟩ := exists_sample
  obtain ⟨hdata, hconfig⟩ := List.forall_mem_append.mp hkept
  obtain ⟨hdataKey, hcertKey, hkeyKey, -⟩ : _ ∧ _ ∧ _ ∧ _ := by
    simpa only [List.forall_mem_cons] using filledKeys
  have hcert := (kept_pairFile configDir List.mem_cons_self).mpr hconfig
  have hkey := (kept_pairFile configDir (List.mem_cons_of_mem _ List.mem_cons_self)).mpr hconfig
  unfold initialFile
  rw [map_fillIn dataDir configDir hparts hsample]
  refine parse_of_lines path (by simp) (ne_lineEnd_of_parts hparts ?_ ?_ ?_)
    (mapM_allLines hlines ?_ ?_ ?_) hvar
  · exact ne_lineEnd_of_debugText _ hdataKey.1
  · exact ne_lineEnd_of_debugText _ hcertKey.1
  · exact ne_lineEnd_of_debugText _ hkeyKey.1
  · rw [line_debugText dataDir hdataKey.2.1 hdataKey.2.2, if_pos hdata]
    rfl
  · rw [line_debugText _ hcertKey.2.1 hcertKey.2.2, if_pos hcert]
    rfl
  · rw [line_debugText _ hkeyKey.2.1 hkeyKey.2.2, if_pos hkey]
    rfl

/-- **And it is refused if they are not.** -/
theorem parse_initialFile_of_not_kept {dataDir configDir : List Char} (path : List Char)
    (var : String → Option String) (hkept : ¬∀ c ∈ dataDir ++ configDir, Kept c) :
    ∃ error, parse (initialFile dataDir configDir) path var = .error error := by
  obtain ⟨front, middle, back, hsample, -, hparts⟩ := exists_sample
  obtain ⟨hdataKey, hcertKey, hkeyKey, -⟩ : _ ∧ _ ∧ _ ∧ _ := by
    simpa only [List.forall_mem_cons] using filledKeys
  have hend := @ne_lineEnd_of_parts front middle back _ _ _ hparts
    (@ne_lineEnd_of_debugText _ _ dataDir hdataKey.1)
    (@ne_lineEnd_of_debugText _ _ (pathJoin configDir "tls/cert.pem".toList) hcertKey.1)
    (@ne_lineEnd_of_debugText _ _ (pathJoin configDir "tls/key.pem".toList) hkeyKey.1)
  unfold initialFile
  rw [map_fillIn dataDir configDir hparts hsample]
  by_cases hdata : ∀ c ∈ dataDir, Kept c
  · have hconfig : ¬∀ c ∈ configDir, Kept c := fun hconfig =>
      hkept (List.forall_mem_append.mpr ⟨hdata, hconfig⟩)
    have hcert := (kept_pairFile configDir List.mem_cons_self).not.mpr hconfig
    have hline := @line_debugText _ _ (pathJoin configDir "tls/cert.pem".toList)
      hcertKey.2.1 hcertKey.2.2
    rw [if_neg hcert] at hline
    exact parse_of_line_error path var hend (by simp) hline
  · have hline := @line_debugText _ _ dataDir hdataKey.2.1 hdataKey.2.2
    rw [if_neg hdata] at hline
    exact parse_of_line_error path var hend (by simp) hline

/-- **The written configuration reads back if and only if its paths are kept**, with every
other value as the sample has it. -/
theorem parse_initialFile_iff (dataDir configDir path : List Char)
    {var : String → Option String}
    (hvar : (var "PASSALONG_SERVER_LOG_LEVEL").filter (· ≠ "") = none) :
    ∃ sample, parse sampleText path var = .ok sample ∧
      (parse (initialFile dataDir configDir) path var = .ok { sample with
          server := { sample.server with dataDir }
          tls := some ⟨pathJoin configDir "tls/cert.pem".toList,
            pathJoin configDir "tls/key.pem".toList⟩ } ↔
        ∀ c ∈ dataDir ++ configDir, Kept c) := by
  refine ⟨_, parse_sampleText path hvar, ?_, ?_⟩
  · intro hparse
    by_contra hkept
    obtain ⟨error, herror⟩ := parse_initialFile_of_not_kept path var hkept
    rw [herror] at hparse
    cases hparse
  · intro hkept
    exact parse_initialFile_of_kept path hkept hvar

end

end Config

namespace Sample

def someDir : List Char := "/srv/it's \"é\"\\\n".toList

/-- An e and the mark that combines with it, as some file systems have it. -/
def combiningDir : List Char := "/srv/e\u0301".toList

end Sample

namespace Config

open Sample

theorem parse_initialFile_sample :
    ∃ sample, parse sampleText [] (fun _ => none) = .ok sample ∧
      (parse (@initialFile charTables someDir []) [] (fun _ => none) = .ok { sample with
          server := { sample.server with dataDir := someDir }
          tls := some ⟨pathJoin [] "tls/cert.pem".toList, pathJoin [] "tls/key.pem".toList⟩ } ↔
        ∀ c ∈ someDir ++ [], @Kept charTables c) :=
  @parse_initialFile_iff charTables someDir [] [] (fun _ => none) rfl

/-- **A path with a combining mark does not read back.** -/
theorem parse_initialFile_combiningMark :
    ¬∀ (tables : CharTables) (dataDir configDir path : List Char) (var : String → Option String),
      (var "PASSALONG_SERVER_LOG_LEVEL").filter (· ≠ "") = none →
      ∃ sample, parse sampleText path var = .ok sample ∧
        parse (@initialFile tables dataDir configDir) path var = .ok { sample with
          server := { sample.server with dataDir }
          tls := some ⟨pathJoin configDir "tls/cert.pem".toList,
            pathJoin configDir "tls/key.pem".toList⟩ } := by
  intro h
  obtain ⟨sample, -, hparse⟩ := h charTables combiningDir [] [] (fun _ => none) rfl
  have hkept : ¬∀ c ∈ combiningDir ++ [], @Kept charTables c := by
    intro hkept
    have hmark := hkept '\u0301' (by decide +kernel)
    revert hmark
    decide +kernel
  obtain ⟨error, herror⟩ :=
    @parse_initialFile_of_not_kept charTables combiningDir [] [] (fun _ => none) hkept
  rw [herror] at hparse
  cases hparse

end Config

end Passalong
