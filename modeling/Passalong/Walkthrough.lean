import Passalong.Addresses
import Passalong.DebugText
import Passalong.Lib.Shell

/-!
# What `tls letsencrypt` prints (`letsencrypt.rs`)

The walkthrough is commands for the operator to run and a hook for `certbot` to run, and
they hold four texts that are not the program's own: the names of the certificate, an e-mail
address, the paths of the pair and the owner of the data directory. The names are letters,
digits, dashes and dots, and stand as they are. The others are quoted.

Whatever they are, the commands have the words they should have (`words_certbot`,
`words_firstRun`), and the hook is the tokens of its fixed text with one word for each text
in its place (`lex_hook`): no text ends a word, begins a command or is expanded. The hook
for `docker` assigns no owner, since the server's user writes the pair there
(`assigned_hookTokens`).
-/

namespace Passalong

namespace LetsEncrypt

open Lib.Shell

set_option maxRecDepth 4000

/-- Where `certbot` runs the hooks of every renewal from. -/
def HOOK_PATH : String := "/etc/letsencrypt/renewal-hooks/deploy/passalong-server"

/-- What the walkthrough is made from. Paths are UTF-8. -/
structure Inputs where
  /-- Host names, the first of which names the certificate's directory. -/
  names : List (List Char)
  email : Option (List Char)
  certFile : List Char
  keyFile : List Char
  /-- `uid:gid` of the data directory's owner, whom the server runs as. -/
  owner : List Char
  /-- The pair lives in the `config` volume of `deploy/docker`. -/
  docker : Bool

structure Walkthrough where
  certbot : List Char
  hook : List Char
  /-- Installs the certificate that was just issued. -/
  firstRun : List Char
  text : List Char

/-- The bytes of a text. -/
def byteLength (text : List Char) : Nat := (text.map Char.utf8Size).sum

/-- A name a public authority can certify: a DNS name with a dot in it. -/
def certifiable (name : List Char) : Bool :=
  parseIp name = none && name.contains '.' && byteLength name ≤ 253 &&
    (name.splitOn '.').all fun label =>
      1 ≤ byteLength label && byteLength label ≤ 63 && label.head? ≠ some '-' &&
        label.getLast? ≠ some '-' && label.all fun c => c.isAlphanum || c = '-'

/-- Single-quoted for `sh`, whatever is in it. -/
def quoted (text : List Char) : List Char :=
  ['\''] ++ text.flatMap (fun c => if c = '\'' then "'\\''".toList else [c]) ++ ['\'']

/-! ## The hook -/

/-- Its first lines, up to what the lineage is compared with. -/
def hookOpening : String := "#!/bin/sh\n# "

def hookOther : String :=
  "\n# Written from `passalong-server tls letsencrypt`. certbot runs it after every\n" ++
  "# renewal, with RENEWED_LINEAGE naming the renewed certificate's directory.\nset -eu\n\n" ++
  "# Other certificates of this machine are none of this hook's business.\n" ++
  "[ \"$\x7bRENEWED_LINEAGE##*/\x7d\" = "

def hookCert : String := " ] || exit 0\n\nCERT="

def hookKey : String := "\nKEY="

def hookParts : String :=
  "\n\n# A whole pair or nothing: never half of a renewal over a pair that works.\n" ++
  "for part in fullchain.pem privkey.pem; do\n" ++
  "    if [ ! -s \"$RENEWED_LINEAGE/$part\" ]; then\n" ++
  "        echo \"passalong-server: $RENEWED_LINEAGE/$part is missing or empty; " ++
  "the pair in use is kept\" >&2\n" ++
  "        exit 1\n    fi\ndone\n\n"

def hookDocker : String :=
  "# The directory of deploy/docker's compose.yaml: set it.\n" ++
  "COMPOSE_DIR=/path/to/passalong-server/deploy/docker\ncd \"$COMPOSE_DIR\"\n\n" ++
  "# Through `exec`, as the server's user: what `docker compose cp` puts there\n" ++
  "# belongs to root, and the server could not read its key.\n" ++
  "into() \x7b docker compose exec -T server sh -c " ++
  "\"umask $1; cat > \\\"\\$0\\\"\" \"$2\"; \x7d\n" ++
  "into 077 \"$KEY.new\" < \"$RENEWED_LINEAGE/privkey.pem\"\n" ++
  "into 022 \"$CERT.new\" < \"$RENEWED_LINEAGE/fullchain.pem\"\n" ++
  "docker compose exec -T server sh -c " ++
  "'mv \"$0.new\" \"$0\" && mv \"$1.new\" \"$1\"' \"$KEY\" \"$CERT\"\n"

def hookOwner : String :=
  "# The server's user, as uid:gid. The key is for its eyes only.\nOWNER="

def hookInstall : String :=
  "\n\n# Written aside and moved into place, so the server never reads half a file.\n" ++
  "install -m 0600 -o \"$\x7bOWNER%%:*\x7d\" -g \"$\x7bOWNER##*:\x7d\" " ++
  "\"$RENEWED_LINEAGE/privkey.pem\" \"$KEY.new\"\n" ++
  "install -m 0644 -o \"$\x7bOWNER%%:*\x7d\" -g \"$\x7bOWNER##*:\x7d\" " ++
  "\"$RENEWED_LINEAGE/fullchain.pem\" \"$CERT.new\"\n" ++
  "mv \"$KEY.new\" \"$KEY\"\nmv \"$CERT.new\" \"$CERT\"\n"

def hookDone : String :=
  "\n# No restart: the server looks at the pair every half minute.\n" ++
  "echo \"passalong-server: installed the renewed pair of $RENEWED_LINEAGE\"\n"

/-- `hook`, for a certificate whose first name is `lineage`. -/
def hook (inputs : Inputs) (lineage : List Char) : List Char :=
  let head := hookOpening.toList ++ HOOK_PATH.toList ++ hookOther.toList ++ quoted lineage ++
    hookCert.toList ++ quoted inputs.certFile ++ hookKey.toList ++ quoted inputs.keyFile ++
    hookParts.toList
  let install :=
    if inputs.docker then hookDocker.toList
    else hookOwner.toList ++ quoted inputs.owner ++ hookInstall.toList
  head ++ install ++ hookDone.toList

/-! ## The walkthrough -/

def certbot (inputs : Inputs) : List Char :=
  "sudo certbot certonly --standalone --reuse-key".toList ++
    (match inputs.email with
      | some email => " --agree-tos -m ".toList ++ quoted email
      | none => " --agree-tos --register-unsafely-without-email".toList) ++
    inputs.names.flatMap fun name => " -d ".toList ++ name

def firstRun (lineage : List Char) : List Char :=
  "sudo RENEWED_LINEAGE=/etc/letsencrypt/live/".toList ++ lineage ++ " ".toList ++
    HOOK_PATH.toList

/-- What is printed of it all. -/
def walkthroughText (inputs : Inputs) (lineage certbot hook firstRun : List Char) : List Char :=
  "Let's Encrypt for ".toList ++ ", ".toList.intercalate inputs.names ++
  ". Nothing was changed; this is what to do.\n\n1. Get the certificate. Port 80 of ".toList ++
  lineage ++ (" must reach this machine while it runs\n   (`--webroot` or a DNS plugin instead " ++
    "of `--standalone` if it cannot):\n\n     ").toList ++ certbot ++
  "\n\n   --reuse-key matters here: see 4.\n\n2. Save the hook below as ".toList ++
  HOOK_PATH.toList ++ "\n   and make it executable (`sudo chmod 755`).".toList ++
  (if inputs.docker then
    "\n   Set COMPOSE_DIR in it. It runs on the host, where certbot runs.".toList else []) ++
  " It installs every renewed pair at\n     ".toList ++ inputs.certFile ++ "\n     ".toList ++
  inputs.keyFile ++ ("\n   for the server's user, the key 0600, a whole pair or nothing.\n\n" ++
    "3. Run it once by hand, since certbot runs such hooks at renewals and not at the\n" ++
    "   first issuance:\n\n     ").toList ++ firstRun ++
  ("\n\n   The server reads a changed pair within half a minute. No restart, now or at\n" ++
    "   any renewal; `sudo certbot renew --dry-run` rehearses one.\n\n" ++
    "4. On the devices: a certificate from Let's Encrypt is trusted as it is, so they\n" ++
    "   need NO `tls_pin`; remove it where it is set. A device that pins all the same\n" ++
    "   pins the key, and certbot makes a new key at every renewal unless told\n" ++
    "   --reuse-key: without it, every pinned device is locked out some sixty days\n" ++
    "   from now. `passalong-server tls fingerprint` prints the pin of the pair in use.\n\n" ++
    "---- ").toList ++ HOOK_PATH.toList ++ " ----\n".toList ++ hook

/-- `walkthrough`: there is none without a name, or with one that no public authority
certifies. -/
def walkthrough [CharTables] (inputs : Inputs) : Except (List Char) Walkthrough :=
  match inputs.names with
  | [] => .error "give the name devices reach the server by: --host <name>".toList
  | lineage :: _ =>
    match inputs.names.find? fun name => !certifiable name with
    | some odd =>
      .error (debugText odd ++ (" is not a name Let's Encrypt certifies: it needs a public DNS " ++
        "name, not an address or a name without a dot. For those, `passalong-server tls " ++
        "self-signed` and a pin").toList)
    | none =>
      let certbot := certbot inputs
      let firstRun := firstRun lineage
      let hook := hook inputs lineage
      .ok ⟨certbot, hook, firstRun, walkthroughText inputs lineage certbot hook firstRun⟩

/-! ## Fixed text -/

/-- The characters of a text that is written down. -/
theorem toList_of_eq {text : String} {cs : List Char} (htext : text = String.ofList cs) :
    text.toList = cs := by
  rw [htext, String.toList_ofList]

/-- And of one that is written down line by line. -/
theorem toList_append_of_eq {front text : String} {cs ds : List Char}
    (htext : text = String.ofList ds) (hfront : front.toList = cs) :
    (front ++ text).toList = cs ++ ds := by
  rw [String.toList_append, hfront, toList_of_eq htext]

theorem map_toList_cons_of_eq {text : String} {texts : List String} {cs : List Char}
    {css : List (List Char)} (htext : text.toList = cs) (htexts : texts.map String.toList = css) :
    (text :: texts).map String.toList = cs :: css := by
  rw [List.map_cons, htext, htexts]

theorem head?_append {front : String} {c : Char} (text : String)
    (h : front.toList.head? = some c) : (front ++ text).toList.head? = some c := by
  rw [String.toList_append, List.head?_append, h]
  rfl

/-- The parts of the hook that stand for themselves. -/
def hookTexts : List String := [hookParts, hookDocker, hookInstall, hookDone]

/-- Their tokens. -/
def tokensOf (text : String) : List Token := (run {} text.toList).out

/-- What the hook has its inputs in. -/
def hookNames : List (List Char) :=
  [['C', 'E', 'R', 'T'], ['K', 'E', 'Y'], ['O', 'W', 'N', 'E', 'R']]

/-- Nothing is open at its end, and it assigns none of the names that the inputs have. -/
def Standing (text : String) : Prop :=
  run {} text.toList = ⟨.bare, none, tokensOf text⟩ ∧
    ∀ name ∈ hookNames, assigned name (tokensOf text) = []

/-- As it is evaluated. -/
def stands (cs : List Char) : Bool :=
  let l := run {} cs
  l.mode = .bare && l.word = none && hookNames.all fun name => assigned name l.out = []

theorem standing_of_stands {text : String} (h : stands text.toList) : Standing text := by
  simp only [stands, Bool.and_eq_true, decide_eq_true_eq, List.all_eq_true] at h
  obtain ⟨⟨hmode, hword⟩, hnames⟩ := h
  have hl : run {} text.toList = ⟨(run {} text.toList).mode, (run {} text.toList).word,
    tokensOf text⟩ := rfl
  rw [hmode, hword] at hl
  exact ⟨hl, hnames⟩

theorem standing {text : String} (h : text ∈ hookTexts) : Standing text := by
  have hchars : ∃ css, hookTexts.map String.toList = css ∧ css.all stands := by
    unfold hookTexts hookParts hookDocker hookInstall hookDone
    apply Exists.intro
    apply And.intro
    case h.left =>
      repeat' first
        | exact toList_of_eq rfl
        | apply toList_append_of_eq rfl
        | apply map_toList_cons_of_eq
        | exact List.map_nil
    case h.right => decide +kernel
  obtain ⟨css, hcss, hall⟩ := hchars
  refine standing_of_stands (List.all_eq_true.mp hall _ ?_)
  rw [← hcss]
  exact List.mem_map_of_mem h

theorem standing_hookParts : Standing hookParts := standing (by simp [hookTexts])

theorem standing_hookDocker : Standing hookDocker := standing (by simp [hookTexts])

theorem standing_hookInstall : Standing hookInstall := standing (by simp [hookTexts])

theorem standing_hookDone : Standing hookDone := standing (by simp [hookTexts])

/-- A word as it is written. -/
def bare (text : List Char) : Token := .word (text.map .plain)

def newlines (n : Nat) : List Token := List.replicate n (.operator ['\n'])

/-- `set -eu`, and the beginning of the comparison. -/
def openingTokens : List Token :=
  newlines 4 ++ [bare ['s', 'e', 't'], bare ['-', 'e', 'u']] ++ newlines 3 ++
    [bare ['['], .word [.expansion "RENEWED_LINEAGE##*/".toList true], bare ['=']]

/-- The end of the comparison: other certificates are none of this hook's business. -/
def otherwiseTokens : List Token :=
  [bare [']'], .operator ['|', '|'], bare ['e', 'x', 'i', 't'], bare ['0']] ++ newlines 2

theorem run_opening :
    run {} (hookOpening.toList ++ HOOK_PATH.toList ++ hookOther.toList) =
      ⟨.bare, none, openingTokens⟩ := by
  have hopening : run {} hookOpening.toList = ⟨.comment, none, newlines 1⟩ := by decide +kernel
  have hpath : '\n' ∉ HOOK_PATH.toList := by decide +kernel
  have hother : ∃ cs, hookOther.toList = cs ∧
      run ⟨.comment, none, newlines 1⟩ cs = ⟨.bare, none, openingTokens⟩ := by
    unfold hookOther
    apply Exists.intro
    apply And.intro
    case h.left =>
      repeat apply toList_append_of_eq rfl
      exact toList_of_eq rfl
    case h.right => decide +kernel
  obtain ⟨cs, hchars, htokens⟩ := hother
  rw [run_append, run_append, hopening, run_comment _ _ hpath, hchars, htokens]

/-- The parts that begin an assignment. -/
theorem run_hookNames :
    run {} hookCert.toList =
        ⟨.bare, some (['C', 'E', 'R', 'T', '='].map .plain), otherwiseTokens⟩ ∧
      run {} hookKey.toList = ⟨.bare, some (['K', 'E', 'Y', '='].map .plain), newlines 1⟩ ∧
      run {} hookOwner.toList =
        ⟨.bare, some (['O', 'W', 'N', 'E', 'R', '='].map .plain), newlines 1⟩ := by
  unfold hookCert hookKey hookOwner
  rw [toList_of_eq rfl, toList_of_eq rfl, toList_of_eq rfl]
  exact ⟨rfl, rfl, rfl⟩

/-! ## The tokens of the hook -/

theorem quoted_eq (text : List Char) : quoted text = quote text := by
  unfold quoted quote
  rw [show "'\\''".toList = ['\'', '\\', '\'', '\''] from String.toList_ofList]
  rfl

/-- A text in the place of a value. -/
def assigns (name text : List Char) : Token :=
  .word ((name ++ ['=']).map .plain ++ text.map .quoted)

def isText (text : List Char) : Token := .word (text.map .quoted)

/-- What the shell reads of the hook. -/
def hookTokens (inputs : Inputs) (lineage : List Char) : List Token :=
  openingTokens ++ isText lineage :: (otherwiseTokens ++
    assigns ['C', 'E', 'R', 'T'] inputs.certFile :: (newlines 1 ++
      assigns ['K', 'E', 'Y'] inputs.keyFile :: (tokensOf hookParts ++
        ((if inputs.docker then tokensOf hookDocker
          else newlines 1 ++ assigns ['O', 'W', 'N', 'E', 'R'] inputs.owner ::
            tokensOf hookInstall) ++ tokensOf hookDone))))

/-- A part that stands for itself, and what follows it. -/
theorem lex_standing {text : String} (h : Standing text) (rest : List Char) :
    lex (text.toList ++ rest) = (lex rest).map (tokensOf text ++ ·) := by
  have hl : (⟨.bare, none, tokensOf text⟩ : Lexer) = ({} : Lexer).after (tokensOf text) := by
    simp [Lexer.after]
  unfold lex
  rw [run_append, h.1, hl, run_after, finish_after]

/-- A part of the fixed text, a text of the inputs that ends the word it begins, and what
follows it. -/
theorem lex_quoted {fixed rest : List Char} {w : Option Word} {front : List Token}
    (text : List Char) (hfixed : run {} fixed = ⟨.bare, w, front⟩) (hrest : Ends rest) :
    lex (fixed ++ (quoted text ++ rest)) =
      (lex rest).map fun tokens =>
        front ++ .word (w.getD [] ++ text.map .quoted) :: tokens := by
  rw [quoted_eq]
  exact lex_append_word hfixed (run_quote w front text) hrest

/-- A part that begins with the end of a word. -/
theorem ends_append {text : List Char} {c : Char} (rest : List Char) (htext : text.head? = some c)
    (hc : c = ' ' ∨ c = '\n') : Ends (text ++ rest) := by
  intro d hd
  rw [List.head?_append, htext] at hd
  cases hd
  exact hc

theorem ends_hookParts (rest : List Char) : Ends (hookParts.toList ++ rest) := by
  refine ends_append rest ?_ (.inr rfl)
  unfold hookParts
  repeat apply head?_append
  rw [toList_of_eq rfl]
  rfl

theorem ends_hookInstall (rest : List Char) : Ends (hookInstall.toList ++ rest) := by
  refine ends_append rest ?_ (.inr rfl)
  unfold hookInstall
  repeat apply head?_append
  rw [toList_of_eq rfl]
  rfl

theorem ends_hookCert (rest : List Char) : Ends (hookCert.toList ++ rest) := by
  refine ends_append rest ?_ (.inl rfl)
  unfold hookCert
  rw [toList_of_eq rfl]
  rfl

theorem ends_hookKey (rest : List Char) : Ends (hookKey.toList ++ rest) := by
  refine ends_append rest ?_ (.inr rfl)
  unfold hookKey
  rw [toList_of_eq rfl]
  rfl

/-- How the pair is installed, and the end. -/
theorem lex_install (inputs : Inputs) :
    lex ((if inputs.docker then hookDocker.toList
      else hookOwner.toList ++ quoted inputs.owner ++ hookInstall.toList) ++ hookDone.toList) =
      some ((if inputs.docker then tokensOf hookDocker
        else newlines 1 ++ assigns ['O', 'W', 'N', 'E', 'R'] inputs.owner ::
          tokensOf hookInstall) ++ tokensOf hookDone) := by
  have hdone : lex hookDone.toList = some (tokensOf hookDone) := by
    have h := lex_standing standing_hookDone []
    rw [List.append_nil] at h
    have hnil : lex [] = some [] := rfl
    rw [h, hnil, Option.map_some, List.append_nil]
  split
  · rw [lex_standing standing_hookDocker, hdone, Option.map_some]
  · rw [List.append_assoc, List.append_assoc,
      lex_quoted _ run_hookNames.2.2 (ends_hookInstall _),
      lex_standing standing_hookInstall, hdone, Option.map_some, Option.map_some,
      List.append_assoc, List.cons_append]
    rfl

/-- **The hook is its fixed text with a word in the place of each input.** -/
theorem lex_hook (inputs : Inputs) (lineage : List Char) :
    lex (hook inputs lineage) = some (hookTokens inputs lineage) := by
  have happend : hook inputs lineage =
      (hookOpening.toList ++ HOOK_PATH.toList ++ hookOther.toList) ++ (quoted lineage ++
        (hookCert.toList ++ (quoted inputs.certFile ++ (hookKey.toList ++
          (quoted inputs.keyFile ++ (hookParts.toList ++
            ((if inputs.docker then hookDocker.toList
              else hookOwner.toList ++ quoted inputs.owner ++ hookInstall.toList) ++
              hookDone.toList))))))) := by
    simp only [hook, List.append_assoc]
  rw [happend, lex_quoted _ run_opening (ends_hookCert _),
    lex_quoted _ run_hookNames.1 (ends_hookKey _),
    lex_quoted _ run_hookNames.2.1 (ends_hookParts _),
    lex_standing standing_hookParts, lex_install]
  rfl

/-! ## What the hook assigns -/

theorem assigned_plain {tokens : List Token} (name : List Char)
    (h : tokens.all fun token => token.assignment = none) : assigned name tokens = [] := by
  refine List.filterMap_eq_nil_iff.mpr fun token htoken => ?_
  have hnone : token.assignment = none := by simpa using List.all_eq_true.mp h token htoken
  rw [hnone]

theorem assigned_assigns {target name text : List Char} (tokens : List Token) (h : '=' ∉ name)
    (hvalid : isName (name.map .plain)) :
    assigned target (assigns name text :: tokens) =
      if name = target then some text :: assigned target tokens else assigned target tokens := by
  have hliteral : Word.literal (text.map .quoted) = some text := mapM_quoted text
  have hcons := @assigned_cons_assignment target name (text.map .quoted) tokens h hvalid
  rw [hliteral] at hcons
  exact hcons

/-- **The hook assigns the inputs' names nothing but the inputs.** -/
theorem assigned_hookTokens (inputs : Inputs) (lineage : List Char) :
    assigned "CERT".toList (hookTokens inputs lineage) = [some inputs.certFile] ∧
      assigned "KEY".toList (hookTokens inputs lineage) = [some inputs.keyFile] ∧
      assigned "OWNER".toList (hookTokens inputs lineage) =
        if inputs.docker then [] else [some inputs.owner] := by
  have hopening : ∀ name, assigned name openingTokens = [] := fun name =>
    assigned_plain name (by decide)
  have hotherwise : ∀ name, assigned name otherwiseTokens = [] := fun name =>
    assigned_plain name (by decide)
  have hnewline : ∀ name, assigned name (newlines 1) = [] := fun name =>
    assigned_plain name (by decide)
  have hall : ∀ name ∈ hookNames, assigned name (hookTokens inputs lineage) =
      (if ['C', 'E', 'R', 'T'] = name then [some inputs.certFile] else []) ++
        ((if ['K', 'E', 'Y'] = name then [some inputs.keyFile] else []) ++
          if inputs.docker then []
          else if ['O', 'W', 'N', 'E', 'R'] = name then [some inputs.owner] else []) := by
    intro name hname
    have hdone := standing_hookDone.2 name hname
    have hinstall : assigned name (if inputs.docker then tokensOf hookDocker
        else newlines 1 ++ assigns ['O', 'W', 'N', 'E', 'R'] inputs.owner ::
          tokensOf hookInstall) =
        if inputs.docker then []
        else if ['O', 'W', 'N', 'E', 'R'] = name then [some inputs.owner] else [] := by
      split
      · exact standing_hookDocker.2 name hname
      · rw [assigned_append, hnewline, assigned_assigns _ (by decide) (by decide),
          standing_hookInstall.2 name hname, List.nil_append]
    unfold hookTokens
    rw [assigned_append, hopening, List.nil_append, isText, assigned_cons_quoted,
      assigned_append, hotherwise, List.nil_append, assigned_assigns _ (by decide) (by decide),
      assigned_append, hnewline, List.nil_append, assigned_assigns _ (by decide) (by decide),
      assigned_append, standing_hookParts.2 name hname, List.nil_append, assigned_append,
      hinstall, hdone, List.append_nil]
    split
    · split
      · rfl
      · rfl
    · split
      · rfl
      · rfl
  have hcert : "CERT".toList = ['C', 'E', 'R', 'T'] := String.toList_ofList
  have hkey : "KEY".toList = ['K', 'E', 'Y'] := String.toList_ofList
  have howner : "OWNER".toList = ['O', 'W', 'N', 'E', 'R'] := String.toList_ofList
  rw [hcert, hkey, howner, hall _ (by decide), hall _ (by decide), hall _ (by decide)]
  cases inputs.docker <;> simp

/-! ## Names -/

theorem mem_intercalate {α : Type} {sep : List α} {parts : List (List α)} {a : α}
    (h : a ∈ sep.intercalate parts) : a ∈ sep ∨ ∃ part ∈ parts, a ∈ part := by
  induction parts with
  | nil => cases h
  | cons part parts ih =>
    cases parts with
    | nil => exact .inr ⟨part, List.mem_cons_self, by simpa using h⟩
    | cons second parts =>
      rw [List.intercalate_cons_cons] at h
      rcases List.mem_append.mp h with h | h
      · rcases List.mem_append.mp h with h | h
        · exact .inr ⟨part, List.mem_cons_self, h⟩
        · exact .inl h
      · obtain hsep | ⟨part', hmem, ha⟩ := ih h
        · exact .inl hsep
        · exact .inr ⟨part', List.mem_cons_of_mem _ hmem, ha⟩

/-- The characters of names. -/
def isNameChar (c : Char) : Bool := c.isAlphanum || c = '-' || c = '.'

/-- A name is letters, digits, dashes and dots, and more than nothing. -/
theorem of_certifiable {name : List Char} (h : certifiable name) :
    name ≠ [] ∧ ∀ c ∈ name, isNameChar c := by
  simp only [certifiable, Bool.and_eq_true, List.all_eq_true] at h
  obtain ⟨⟨⟨-, hdot⟩, -⟩, hlabels⟩ := h
  refine ⟨?_, fun c hc => ?_⟩
  · rintro rfl
    cases hdot
  · have hjoined : ['.'].intercalate (name.splitOn '.') = name := List.intercalate_splitOn '.'
    rw [← hjoined] at hc
    obtain hsep | ⟨label, hlabel, hc⟩ := mem_intercalate hc
    · rw [List.mem_singleton.mp hsep]
      rfl
    · have hchar := (hlabels label hlabel).2 c hc
      unfold isNameChar
      rw [hchar]
      rfl

/-- None of them means anything to the shell. -/
theorem of_isNameChar {c : Char} (h : isNameChar c) :
    c ∉ specials ∧ isPattern c = false ∧ c ≠ '#' := by
  have hnone : (specials ++ ['*', '?', '[', '~', '#']).all fun d => !isNameChar d := by decide
  have hne : ∀ d ∈ specials ++ ['*', '?', '[', '~', '#'], c ≠ d := by
    rintro d hd rfl
    have hd' := List.all_eq_true.mp hnone c hd
    rw [h] at hd'
    cases hd'
  refine ⟨fun hc => hne c (List.mem_append_left _ hc) rfl, ?_, hne '#' (by decide)⟩
  unfold isPattern
  refine decide_eq_false fun hc => hne c (List.mem_append_right _ ?_) rfl
  exact List.mem_append_left ['#'] hc

/-! ## The commands -/

theorem plain_of_certifiable {name : List Char} (h : certifiable name) :
    (∀ c ∈ name, c ∉ specials) ∧ Word.literal (name.map .plain) = some name := by
  have hchar := fun c hc => of_isNameChar ((of_certifiable h).2 c hc)
  exact ⟨fun c hc => (hchar c hc).1, mapM_plain fun c hc => (hchar c hc).2.1⟩

theorem ends_names (names : List (List Char)) :
    Ends (names.flatMap fun name => " -d ".toList ++ name) := by
  have hd : " -d ".toList = [' ', '-', 'd', ' '] := String.toList_ofList
  cases names with
  | nil =>
    intro c hc
    cases hc
  | cons name names =>
    rw [List.flatMap_cons, hd]
    intro c hc
    cases hc
    exact .inl rfl

/-- Every name is one word, behind its option. -/
theorem words_names {names : List (List Char)} (h : ∀ name ∈ names, certifiable name) :
    words (names.flatMap fun name => " -d ".toList ++ name) =
      some (names.flatMap fun name => [['-', 'd'], name]) := by
  have hoption : run {} " -d ".toList = ⟨.bare, none, [bare ['-', 'd']]⟩ := by
    rw [toList_of_eq rfl]
    rfl
  induction names with
  | nil => rfl
  | cons name names ih =>
    obtain ⟨hplain, hliteral⟩ := plain_of_certifiable (h name List.mem_cons_self)
    have hword : run ⟨.bare, none, [bare ['-', 'd']]⟩ name =
        ⟨.bare, some (name.map .plain), [bare ['-', 'd']]⟩ := by
      obtain ⟨hne, hchars⟩ := of_certifiable (h name List.mem_cons_self)
      cases name with
      | nil => exact absurd rfl hne
      | cons c name =>
        exact run_plain_none _ (of_isNameChar (hchars c List.mem_cons_self)).2.2 hplain
    have hfront : [bare ['-', 'd']].mapM Token.literal = some [['-', 'd']] := rfl
    rw [List.flatMap_cons, List.append_assoc,
      words_append_word hoption hword (ends_names names) hfront hliteral,
      ih fun other hother => h other (List.mem_cons_of_mem name hother), Option.map_some]
    rfl

/-- The words before the e-mail address, or what stands for it. -/
def certbotWords : List (List Char) :=
  [['s', 'u', 'd', 'o'], "certbot".toList, "certonly".toList, "--standalone".toList,
    "--reuse-key".toList, "--agree-tos".toList]

/-- **The words of the command are the email and the names, behind their options.** -/
theorem words_certbot {inputs : Inputs} (h : ∀ name ∈ inputs.names, certifiable name) :
    words (certbot inputs) = some (certbotWords ++
      ((match inputs.email with
        | some email => ["-m".toList, email]
        | none => ["--register-unsafely-without-email".toList]) ++
      inputs.names.flatMap fun name => ["-d".toList, name])) := by
  have hd : "-d".toList = ['-', 'd'] := String.toList_ofList
  have hends := ends_names inputs.names
  have hnames := words_names h
  unfold certbot
  rw [hd]
  cases inputs.email with
  | some email =>
    have hfixed : run {} ("sudo certbot certonly --standalone --reuse-key".toList ++
        " --agree-tos -m ".toList) =
        ⟨.bare, none, (certbotWords ++ ["-m".toList]).map bare⟩ := by
      decide +kernel
    have hfront : ((certbotWords ++ ["-m".toList]).map bare).mapM Token.literal =
        some (certbotWords ++ ["-m".toList]) := by
      decide +kernel
    have hword := run_quote none ((certbotWords ++ ["-m".toList]).map bare) email
    rw [← quoted_eq] at hword
    dsimp only
    rw [← List.append_assoc, List.append_assoc,
      words_append_word hfixed hword hends hfront (mapM_quoted email), hnames, Option.map_some,
      List.append_assoc]
    rfl
  | none =>
    have hfixed : run {} ("sudo certbot certonly --standalone --reuse-key".toList ++
        " --agree-tos --register-unsafely-without-email".toList) =
        ⟨.bare, some ("--register-unsafely-without-email".toList.map .plain),
          certbotWords.map bare⟩ := by
      decide +kernel
    have hfront : (certbotWords.map bare).mapM Token.literal = some certbotWords := by
      decide +kernel
    have hlast : Word.literal ("--register-unsafely-without-email".toList.map .plain) =
        some "--register-unsafely-without-email".toList := by
      decide +kernel
    have hword := words_append_word hfixed (run_nil _) hends hfront hlast
    rw [List.nil_append, hnames, Option.map_some] at hword
    exact hword

/-- **The first run is one assignment and the hook.** -/
theorem words_firstRun {lineage : List Char} (h : certifiable lineage) :
    words (firstRun lineage) =
      some ["sudo".toList, "RENEWED_LINEAGE=/etc/letsencrypt/live/".toList ++ lineage,
        HOOK_PATH.toList] := by
  obtain ⟨hplain, hliteral⟩ := plain_of_certifiable h
  have hfixed : run {} "sudo RENEWED_LINEAGE=/etc/letsencrypt/live/".toList =
      ⟨.bare, some ("RENEWED_LINEAGE=/etc/letsencrypt/live/".toList.map .plain),
        [bare "sudo".toList]⟩ := by
    decide +kernel
  have hfront : [bare "sudo".toList].mapM Token.literal = some ["sudo".toList] := by
    decide +kernel
  have hset : Word.literal ("RENEWED_LINEAGE=/etc/letsencrypt/live/".toList.map .plain) =
      some "RENEWED_LINEAGE=/etc/letsencrypt/live/".toList := by
    decide +kernel
  have hpath : words (" ".toList ++ HOOK_PATH.toList) = some [HOOK_PATH.toList] := by
    decide +kernel
  have hends : Ends (" ".toList ++ HOOK_PATH.toList) :=
    ends_append _ (by decide +kernel) (.inl rfl)
  unfold firstRun
  rw [List.append_assoc, List.append_assoc,
    words_append_word hfixed (run_plain _ _ hplain) hends hfront (literal_append hset hliteral),
    hpath, Option.map_some]
  rfl

/-! ## What is accepted -/

theorem walkthrough_eq [CharTables] {inputs : Inputs} {lineage : List Char}
    {others : List (List Char)} (hnames : inputs.names = lineage :: others)
    (h : ∀ name ∈ inputs.names, certifiable name) :
    walkthrough inputs = .ok ⟨certbot inputs, hook inputs lineage, firstRun lineage,
      walkthroughText inputs lineage (certbot inputs) (hook inputs lineage)
        (firstRun lineage)⟩ := by
  have hodd : inputs.names.find? (fun name => !certifiable name) = none := by
    simpa using h
  unfold walkthrough
  rw [hnames] at hodd ⊢
  dsimp only
  rw [hodd]

/-- And nothing else is. -/
theorem of_walkthrough [CharTables] {inputs : Inputs} {made : Walkthrough}
    (h : walkthrough inputs = .ok made) :
    ∃ lineage others, inputs.names = lineage :: others ∧
      (∀ name ∈ inputs.names, certifiable name) ∧ made.certbot = certbot inputs ∧
      made.hook = hook inputs lineage ∧ made.firstRun = firstRun lineage := by
  unfold walkthrough at h
  split at h
  · cases h
  · next lineage others hnames =>
    split at h
    · cases h
    · next hodd =>
      cases h
      refine ⟨lineage, others, hnames, fun name hname => ?_, rfl, rfl, rfl⟩
      simpa using List.find?_eq_none.mp hodd name hname

/-- **What the shell acts on is not the inputs'**, beyond which of the two hooks it is. -/
theorem skeleton_hookTokens {inputs inputs' : Inputs} (lineage lineage' : List Char)
    (h : inputs.docker = inputs'.docker) :
    (hookTokens inputs lineage).map Token.skeleton =
      (hookTokens inputs' lineage').map Token.skeleton := by
  have htext : ∀ text text', (isText text).skeleton = (isText text').skeleton := by
    intro text text'
    exact (skeleton_append_quoted [] text).trans (skeleton_append_quoted [] text').symm
  have hassigns : ∀ name text text',
      (assigns name text).skeleton = (assigns name text').skeleton := by
    intro name text text'
    exact (skeleton_append_quoted _ text).trans (skeleton_append_quoted _ text').symm
  have hinstall : (if inputs.docker then tokensOf hookDocker
      else newlines 1 ++ assigns ['O', 'W', 'N', 'E', 'R'] inputs.owner ::
        tokensOf hookInstall).map Token.skeleton =
      (if inputs'.docker then tokensOf hookDocker
      else newlines 1 ++ assigns ['O', 'W', 'N', 'E', 'R'] inputs'.owner ::
        tokensOf hookInstall).map Token.skeleton := by
    rw [h]
    split
    · rfl
    · rw [List.map_append, List.map_cons, hassigns _ inputs.owner inputs'.owner,
        List.map_append, List.map_cons]
  unfold hookTokens
  rw [List.map_append, List.map_cons, List.map_append, List.map_cons, List.map_append,
    List.map_cons, List.map_append, List.map_append, hinstall, htext lineage lineage',
    hassigns _ inputs.certFile inputs'.certFile, hassigns _ inputs.keyFile inputs'.keyFile,
    List.map_append, List.map_cons, List.map_append, List.map_cons, List.map_append,
    List.map_cons, List.map_append, List.map_append]

/-- The comparison at the beginning: the hook is done if the name is another. -/
def comparisonTokens (lineage : List Char) : List Token :=
  [bare ['['], .word [.expansion "RENEWED_LINEAGE##*/".toList true], bare ['='],
    isText lineage, bare [']'], .operator ['|', '|'], bare ['e', 'x', 'i', 't'], bare ['0']]

theorem hookTokens_comparison (inputs : Inputs) (lineage : List Char) :
    ∃ before after, hookTokens inputs lineage = before ++ comparisonTokens lineage ++ after :=
  ⟨newlines 4 ++ [bare ['s', 'e', 't'], bare ['-', 'e', 'u']] ++ newlines 3, _, rfl⟩

/-- What the commands are to the shell, for a certificate whose first name is `lineage`. -/
structure Unbroken [CharTables] (inputs : Inputs) (made : Walkthrough) (lineage : List Char) :
    Prop where
  certbot : words made.certbot = some (certbotWords ++
    ((match inputs.email with
      | some email => ["-m".toList, email]
      | none => ["--register-unsafely-without-email".toList]) ++
    inputs.names.flatMap fun name => ["-d".toList, name]))
  firstRun : words made.firstRun = some ["sudo".toList,
    "RENEWED_LINEAGE=/etc/letsencrypt/live/".toList ++ lineage, HOOK_PATH.toList]
  hook : lex made.hook = some (hookTokens inputs lineage)
  comparison : ∃ before after,
    hookTokens inputs lineage = before ++ comparisonTokens lineage ++ after
  cert : assigned "CERT".toList (hookTokens inputs lineage) = [some inputs.certFile]
  key : assigned "KEY".toList (hookTokens inputs lineage) = [some inputs.keyFile]
  /-- Through `docker`, the pair is written by the server's user, and no owner is needed. -/
  owner : assigned "OWNER".toList (hookTokens inputs lineage) =
    if inputs.docker then [] else [some inputs.owner]
  /-- Whatever the inputs are, what the shell acts on is the same. -/
  skeleton : ∀ inputs' made', walkthrough inputs' = .ok made' → inputs'.docker = inputs.docker →
    (lex made'.hook).map (·.map Token.skeleton) =
      some ((hookTokens inputs lineage).map Token.skeleton)

/-- **No input breaks out of the commands.** -/
theorem walkthrough_unbroken [CharTables] {inputs : Inputs} {made : Walkthrough}
    (h : walkthrough inputs = .ok made) :
    ∃ lineage others, inputs.names = lineage :: others ∧ Unbroken inputs made lineage := by
  obtain ⟨lineage, others, hnames, hcertifiable, hcertbot, hhook, hfirst⟩ := of_walkthrough h
  obtain ⟨hcert, hkey, howner⟩ := assigned_hookTokens inputs lineage
  have hlineage : certifiable lineage := hcertifiable lineage (hnames ▸ List.mem_cons_self)
  refine ⟨lineage, others, hnames, ?_⟩
  constructor
  case certbot => rw [hcertbot, words_certbot hcertifiable]
  case firstRun => rw [hfirst, words_firstRun hlineage]
  case hook => rw [hhook, lex_hook]
  case comparison => exact hookTokens_comparison inputs lineage
  case cert => exact hcert
  case key => exact hkey
  case owner => exact howner
  case skeleton =>
    intro inputs' made' h' hdocker
    obtain ⟨lineage', -, -, -, -, hhook', -⟩ := of_walkthrough h'
    rw [hhook', lex_hook, Option.map_some, skeleton_hookTokens lineage' lineage hdocker]

end LetsEncrypt

namespace Sample

/-- Everything that could be meant for the shell. -/
def hostileInputs : LetsEncrypt.Inputs where
  names := [['a', '.', 'b'], ['c', '-', '1', '.', 'd']]
  email := some "'; $(reboot) `x` \"\n#\\".toList
  certFile := "/srv/it's/$HOME/cert.pem".toList
  keyFile := "'\n| tee".toList
  owner := "0:0' && rm -rf '".toList
  docker := false

theorem certifiable_hostileInputs :
    ∀ name ∈ hostileInputs.names, LetsEncrypt.certifiable name := by
  decide +kernel

end Sample

namespace LetsEncrypt

open Lib.Shell Sample

theorem walkthrough_unbroken_hostile :
    ∃ made, @walkthrough charTables hostileInputs = .ok made ∧
      ∃ lineage others, hostileInputs.names = lineage :: others ∧
        @Unbroken charTables hostileInputs made lineage := by
  have h := @walkthrough_eq charTables hostileInputs _ _ rfl certifiable_hostileInputs
  exact ⟨_, h, @walkthrough_unbroken charTables _ _ h⟩

/-- **The hook for `docker` assigns no owner.** -/
theorem walkthrough_docker_owner :
    ¬∀ (_ : CharTables) (inputs : Inputs) (made : Walkthrough),
      walkthrough inputs = .ok made →
      ∃ tokens, lex made.hook = some tokens ∧
        assigned "OWNER".toList tokens = [some inputs.owner] := by
  intro hall
  obtain ⟨tokens, hlex, howner⟩ := hall charTables { hostileInputs with docker := true } _
    (@walkthrough_eq charTables _ _ _ rfl certifiable_hostileInputs)
  rw [lex_hook] at hlex
  cases hlex
  rw [(assigned_hookTokens _ _).2.2] at howner
  cases howner

end LetsEncrypt

end Passalong
