import Mathlib.Logic.Function.Iterate
import Passalong.Lib.Runs

/-!
# Reading the certificate again (`tls.rs`)

The server looks at the stamps of its two files and, if they are not those it saw last,
remembers them and loads the pair. A renewal writes the files one after the other, so that
between any two of a look's reads there may be a write: the stamps it remembers may be older
than what it loads.

That does no harm as long as no stamp comes twice. `Host.UpToDate` says what the remembered
stamps stand for: while they are those on disk, the server has what the files on disk load
as, if they load. A write makes them others than those on disk (`Sound.write_cert`), and the
end of a load was about the files that they were read of, or about later ones, whose stamps
are others again (`Sound.advance`).

What it can cost is a load: a look that read a file later than its stamp remembers an older one,
and where its pair does not load, the next look loads the same pair again (`reload_retried`).
-/

namespace Passalong

open Lib

namespace Tls

/-! ## Loading a pair -/

/-- What the TLS library makes of files. -/
structure Pem (Content Certificate Key Config : Type) where
  certificates : Content → Except String (List Certificate)
  key : Content → Except String Key
  withSingleCert : List Certificate → Key → Except String Config

inductive TlsError where
  | certificate (err : String)
  | noCertificate
  | key (err : String)
  | notAPair (err : String)
  deriving DecidableEq, Repr

section
variable {Content Certificate Key Config Stamp : Type}
  (pem : Pem Content Certificate Key Config)

/-- The first half of `load`. -/
def readCertificates (cert : Content) : Except TlsError (List Certificate) :=
  match pem.certificates cert with
  | .error err => .error (.certificate err)
  | .ok [] => .error .noCertificate
  | .ok (c :: cs) => .ok (c :: cs)

/-- The second half. -/
def readKey (certificates : List Certificate) (key : Content) : Except TlsError Config :=
  match pem.key key with
  | .error err => .error (.key err)
  | .ok key =>
    match pem.withSingleCert certificates key with
    | .error err => .error (.notAPair err)
    | .ok config => .ok config

/-- `load`, of two files that do not change. -/
def load (cert key : Content) : Except TlsError Config :=
  match readCertificates pem cert with
  | .error err => .error err
  | .ok certificates => readKey pem certificates key

/-! ## Files -/

/-- What a file holds, and the stamp that tells it was replaced. -/
structure Version (Content Stamp : Type) where
  content : Content
  stamp : Stamp
  deriving DecidableEq, Repr

/-- A file on disk. -/
structure File (Content Stamp : Type) where
  now : Version Content Stamp
  /-- What it was before; the server does not see it. -/
  past : List (Version Content Stamp)
  deriving DecidableEq, Repr

namespace File

def write (f : File Content Stamp) (v : Version Content Stamp) : File Content Stamp :=
  ⟨v, f.now :: f.past⟩

/-- All that it ever was. -/
def versions (f : File Content Stamp) : List (Version Content Stamp) := f.now :: f.past

/-- It had this stamp some time. -/
def Had (f : File Content Stamp) (stamp : Stamp) : Prop := ∃ v ∈ f.versions, v.stamp = stamp

instance [DecidableEq Stamp] (f : File Content Stamp) (stamp : Stamp) : Decidable (f.Had stamp) :=
  inferInstanceAs (Decidable (∃ v ∈ f.versions, v.stamp = stamp))

theorem had_now (f : File Content Stamp) : f.Had f.now.stamp := ⟨_, List.mem_cons_self, rfl⟩

theorem mem_write {f : File Content Stamp} {v w : Version Content Stamp} (h : w ∈ f.versions) :
    w ∈ (f.write v).versions :=
  List.mem_cons_of_mem _ h

theorem Had.write {f : File Content Stamp} {v : Version Content Stamp} {stamp : Stamp}
    (h : f.Had stamp) : (f.write v).Had stamp := by
  obtain ⟨w, hw, heq⟩ := h
  exact ⟨w, mem_write hw, heq⟩

/-- A stamp that never was is none of those that were. -/
theorem Had.ne {f : File Content Stamp} {stamp fresh : Stamp} (h : f.Had stamp)
    (hfresh : ¬f.Had fresh) : stamp ≠ fresh := by
  rintro rfl
  exact hfresh h

end File

/-! ## The server -/

/-- The server's pair. -/
structure Reloading (Config Stamp : Type) where
  current : Config
  /-- The stamps of the pair that was loaded last, or that did not load. -/
  seen : Stamp × Stamp
  deriving DecidableEq, Repr

/-- How far a look is: a write may come between any two of its reads. -/
inductive Phase (Certificate Stamp : Type) where
  | idle
  /-- The stamp of the certificate was read. -/
  | stamping (cert : Stamp)
  /-- Both stamps were read, and are remembered. -/
  | reading (now : Stamp × Stamp)
  /-- The certificate was read. -/
  | loading (now : Stamp × Stamp) (certificates : List Certificate)
  deriving DecidableEq, Repr

/-- The two files, and the server once it has opened them. -/
structure Host (Content Certificate Config Stamp : Type) where
  cert : File Content Stamp
  key : File Content Stamp
  server : Option (Reloading Config Stamp)
  phase : Phase Certificate Stamp
  deriving DecidableEq, Repr

/-- What happens: a file is replaced, or a look reads on. -/
inductive Event (Content Stamp : Type) where
  | writeCert (v : Version Content Stamp)
  | writeKey (v : Version Content Stamp)
  | advance
  deriving DecidableEq, Repr

/-- A file is replaced. -/
def Event.isWrite : Event Content Stamp → Bool
  | .writeCert _ | .writeKey _ => true
  | .advance => false

namespace Host

def stamps (h : Host Content Certificate Config Stamp) : Stamp × Stamp :=
  (h.cert.now.stamp, h.key.now.stamp)

section
variable [DecidableEq Stamp]

/-- The next read of `look`; of `open`, as long as there is no server. -/
def advance (h : Host Content Certificate Config Stamp) :
    Host Content Certificate Config Stamp :=
  match h.phase with
  | .idle => { h with phase := .stamping h.cert.now.stamp }
  | .stamping stamp =>
    let now := (stamp, h.key.now.stamp)
    match h.server with
    | none => { h with phase := .reading now }
    | some r =>
      if r.seen = now then { h with phase := .idle }
      -- remembered whether or not it loads
      else { h with server := some { r with seen := now }, phase := .reading now }
  | .reading now =>
    match readCertificates pem h.cert.now.content with
    | .error _ => { h with phase := .idle }
    | .ok certificates => { h with phase := .loading now certificates }
  | .loading now certificates =>
    match readKey pem certificates h.key.now.content with
    | .error _ => { h with phase := .idle }
    | .ok config =>
      match h.server with
      | none => { h with server := some ⟨config, now⟩, phase := .idle }
      | some r => { h with server := some { r with current := config }, phase := .idle }

def step (h : Host Content Certificate Config Stamp) :
    Event Content Stamp → Host Content Certificate Config Stamp
  | .writeCert v => { h with cert := h.cert.write v }
  | .writeKey v => { h with key := h.key.write v }
  | .advance => h.advance pem

end

/-- A write gives a stamp that the file never had. -/
def Fresh (h : Host Content Certificate Config Stamp) : Event Content Stamp → Prop
  | .writeCert v => ¬h.cert.Had v.stamp
  | .writeKey v => ¬h.key.Had v.stamp
  | .advance => True

instance [DecidableEq Stamp] (h : Host Content Certificate Config Stamp)
    (e : Event Content Stamp) : Decidable (h.Fresh e) := by
  unfold Fresh
  cases e <;> infer_instance

/-! ## What the remembered stamps stand for -/

/-- If the remembered stamps are those on disk, the server has what is on disk, if that
loads. -/
def UpToDate (h : Host Content Certificate Config Stamp) (r : Reloading Config Stamp) : Prop :=
  r.seen = h.stamps →
    ∀ config, load pem h.cert.now.content h.key.now.content = .ok config → r.current = config

/-- What a look has read so far was on disk some time; the certificate, as it is now unless
it was written since its stamp was read. -/
def Look (h : Host Content Certificate Config Stamp) : Phase Certificate Stamp → Prop
  | .idle => ∀ r, h.server = some r → h.UpToDate pem r
  | .stamping stamp => h.cert.Had stamp ∧ ∀ r, h.server = some r → h.UpToDate pem r
  | .reading now =>
    (h.cert.Had now.1 ∧ h.key.Had now.2) ∧ ∀ r, h.server = some r → r.seen = now
  | .loading now certificates =>
    ((h.cert.Had now.1 ∧ h.key.Had now.2) ∧ ∀ r, h.server = some r → r.seen = now) ∧
      (now.1 = h.cert.now.stamp →
        readCertificates pem h.cert.now.content = .ok certificates) ∧
      ∃ v ∈ h.cert.versions, readCertificates pem v.content = .ok certificates

/-- What the server has was loaded of files that were on disk, if not at one time. -/
structure Loaded (h : Host Content Certificate Config Stamp) (r : Reloading Config Stamp) :
    Prop where
  seen_cert : h.cert.Had r.seen.1
  seen_key : h.key.Had r.seen.2
  current : ∃ c ∈ h.cert.versions, ∃ k ∈ h.key.versions,
    load pem c.content k.content = .ok r.current

/-- The invariant. -/
structure Sound (h : Host Content Certificate Config Stamp) : Prop where
  look : h.Look pem h.phase
  server : ∀ r, h.server = some r → h.Loaded pem r

variable {pem} {h : Host Content Certificate Config Stamp} {v : Version Content Stamp}

/-- Before any server was opened. -/
theorem sound_initial (hserver : h.server = none) (hphase : h.phase = .idle) :
    h.Sound pem := by
  constructor
  · rw [hphase]
    intro r hr
    rw [hserver] at hr
    cases hr
  · intro r hr
    rw [hserver] at hr
    cases hr

/-- A write of the certificate: the stamps on disk are others than all that were read. -/
theorem Sound.write_cert (hs : h.Sound pem) (hfresh : ¬h.cert.Had v.stamp) :
    ({ h with cert := h.cert.write v } : Host Content Certificate Config Stamp).Sound pem := by
  have hloaded : ∀ r, h.server = some r →
      ({ h with cert := h.cert.write v } : Host Content Certificate Config Stamp).Loaded
        pem r := by
    intro r hr
    obtain ⟨hcert, hkey, c, hc, k, hk, hload⟩ := hs.server r hr
    exact ⟨hcert.write, hkey, c, File.mem_write hc, k, hk, hload⟩
  have hstale : ∀ r, h.server = some r →
      ({ h with cert := h.cert.write v } : Host Content Certificate Config Stamp).UpToDate
        pem r := by
    intro r hr hseen
    exact absurd (congrArg Prod.fst hseen) ((hs.server r hr).seen_cert.ne hfresh)
  refine ⟨?_, hloaded⟩
  have hlook := hs.look
  show Look pem { h with cert := h.cert.write v } h.phase
  cases hphase : h.phase with
  | idle => exact hstale
  | stamping stamp =>
    rw [hphase] at hlook
    exact ⟨hlook.1.write, hstale⟩
  | reading now =>
    rw [hphase] at hlook
    exact ⟨⟨hlook.1.1.write, hlook.1.2⟩, hlook.2⟩
  | loading now certificates =>
    rw [hphase] at hlook
    obtain ⟨⟨⟨hcert, hkey⟩, hseen⟩, -, w, hw, hread⟩ := hlook
    exact ⟨⟨⟨hcert.write, hkey⟩, hseen⟩, fun heq => absurd heq (hcert.ne hfresh), w,
      File.mem_write hw, hread⟩

/-- A write of the key. -/
theorem Sound.write_key (hs : h.Sound pem) (hfresh : ¬h.key.Had v.stamp) :
    ({ h with key := h.key.write v } : Host Content Certificate Config Stamp).Sound pem := by
  have hloaded : ∀ r, h.server = some r →
      ({ h with key := h.key.write v } : Host Content Certificate Config Stamp).Loaded
        pem r := by
    intro r hr
    obtain ⟨hcert, hkey, c, hc, k, hk, hload⟩ := hs.server r hr
    exact ⟨hcert, hkey.write, c, hc, k, File.mem_write hk, hload⟩
  have hstale : ∀ r, h.server = some r →
      ({ h with key := h.key.write v } : Host Content Certificate Config Stamp).UpToDate
        pem r := by
    intro r hr hseen
    exact absurd (congrArg Prod.snd hseen) ((hs.server r hr).seen_key.ne hfresh)
  refine ⟨?_, hloaded⟩
  have hlook := hs.look
  show Look pem { h with key := h.key.write v } h.phase
  cases hphase : h.phase with
  | idle => exact hstale
  | stamping stamp =>
    rw [hphase] at hlook
    exact ⟨hlook.1, hstale⟩
  | reading now =>
    rw [hphase] at hlook
    exact ⟨⟨hlook.1.1, hlook.1.2.write⟩, hlook.2⟩
  | loading now certificates =>
    rw [hphase] at hlook
    obtain ⟨⟨⟨hcert, hkey⟩, hseen⟩, hread⟩ := hlook
    exact ⟨⟨⟨hcert, hkey.write⟩, hseen⟩, hread⟩

/-- What was loaded does not depend on how far a look is. -/
theorem Sound.phase (hs : h.Sound pem) {phase : Phase Certificate Stamp}
    (hlook : Look pem { h with phase := phase } phase) :
    ({ h with phase := phase } : Host Content Certificate Config Stamp).Sound pem :=
  ⟨hlook, fun r hr => ⟨(hs.server r hr).seen_cert, (hs.server r hr).seen_key,
    (hs.server r hr).current⟩⟩

/-! ## The reads of a look -/

section
variable [DecidableEq Stamp] {stamp : Stamp} {now : Stamp × Stamp}
  {certificates : List Certificate} {r : Reloading Config Stamp} {err : TlsError}
  {config : Config}

theorem advance_idle (hphase : h.phase = .idle) :
    h.advance pem = { h with phase := .stamping h.cert.now.stamp } := by
  unfold advance
  rw [hphase]

theorem advance_opening (hphase : h.phase = .stamping stamp) (hserver : h.server = none) :
    h.advance pem = { h with phase := .reading (stamp, h.key.now.stamp) } := by
  obtain ⟨cert, key, server, phase⟩ := h
  cases hphase
  cases hserver
  rfl

theorem advance_same (hphase : h.phase = .stamping stamp) (hserver : h.server = some r)
    (hseen : r.seen = (stamp, h.key.now.stamp)) :
    h.advance pem = { h with phase := .idle } := by
  obtain ⟨cert, key, server, phase⟩ := h
  cases hphase
  cases hserver
  exact if_pos hseen

theorem advance_changed (hphase : h.phase = .stamping stamp) (hserver : h.server = some r)
    (hseen : r.seen ≠ (stamp, h.key.now.stamp)) :
    h.advance pem = { h with
      server := some { r with seen := (stamp, h.key.now.stamp) }
      phase := .reading (stamp, h.key.now.stamp) } := by
  obtain ⟨cert, key, server, phase⟩ := h
  cases hphase
  cases hserver
  exact if_neg hseen

theorem advance_unread (hphase : h.phase = .reading now)
    (hread : readCertificates pem h.cert.now.content = .error err) :
    h.advance pem = { h with phase := .idle } := by
  unfold advance
  rw [hphase]
  simp only [hread]

theorem advance_read (hphase : h.phase = .reading now)
    (hread : readCertificates pem h.cert.now.content = .ok certificates) :
    h.advance pem = { h with phase := .loading now certificates } := by
  unfold advance
  rw [hphase]
  simp only [hread]

theorem advance_unloaded (hphase : h.phase = .loading now certificates)
    (hread : readKey pem certificates h.key.now.content = .error err) :
    h.advance pem = { h with phase := .idle } := by
  unfold advance
  rw [hphase]
  simp only [hread]

theorem advance_opened (hphase : h.phase = .loading now certificates)
    (hread : readKey pem certificates h.key.now.content = .ok config) (hserver : h.server = none) :
    h.advance pem = { h with server := some ⟨config, now⟩, phase := .idle } := by
  obtain ⟨cert, key, server, phase⟩ := h
  cases hphase
  cases hserver
  unfold advance
  simp only [hread]

theorem advance_loaded (hphase : h.phase = .loading now certificates)
    (hread : readKey pem certificates h.key.now.content = .ok config)
    (hserver : h.server = some r) :
    h.advance pem = { h with server := some { r with current := config }, phase := .idle } := by
  obtain ⟨cert, key, server, phase⟩ := h
  cases hphase
  cases hserver
  unfold advance
  simp only [hread]

/-- The stamps are read of what is on disk. -/
theorem Sound.stamped (hs : h.Sound pem) (hphase : h.phase = .stamping stamp) :
    (h.advance pem).Sound pem := by
  have hlook := hs.look
  rw [hphase] at hlook
  obtain ⟨hcert, hup⟩ := hlook
  cases hserver : h.server with
  | none =>
    rw [advance_opening hphase hserver]
    exact hs.phase ⟨⟨hcert, h.key.had_now⟩, fun r hr => by cases hserver.symm.trans hr⟩
  | some r =>
    by_cases hseen : r.seen = (stamp, h.key.now.stamp)
    · rw [advance_same hphase hserver hseen]
      exact hs.phase hup
    · rw [advance_changed hphase hserver hseen]
      refine ⟨⟨⟨hcert, h.key.had_now⟩, fun r' hr' => ?_⟩, fun r' hr' => ?_⟩
      · cases hr'
        rfl
      · cases hr'
        exact ⟨hcert, h.key.had_now, (hs.server r hserver).current⟩

/-- The certificate is the one on disk, when it is read. -/
theorem Sound.read (hs : h.Sound pem) (hphase : h.phase = .reading now) :
    (h.advance pem).Sound pem := by
  have hlook := hs.look
  rw [hphase] at hlook
  cases hread : readCertificates pem h.cert.now.content with
  | error err =>
    rw [advance_unread hphase hread]
    refine hs.phase fun r hr _ config hload => ?_
    have hnot : load pem h.cert.now.content h.key.now.content = .error err := by
      unfold load
      rw [hread]
    cases hnot.symm.trans hload
  | ok certificates =>
    rw [advance_read hphase hread]
    exact hs.phase ⟨hlook, fun _ => hread, h.cert.now, List.mem_cons_self, hread⟩

/-- What is loaded is what is on disk, if the stamp of the certificate is still the one that
was read. -/
theorem Sound.load (hs : h.Sound pem) (hphase : h.phase = .loading now certificates) :
    (h.advance pem).Sound pem := by
  have hlook := hs.look
  rw [hphase] at hlook
  obtain ⟨⟨hhad, hseen⟩, hcurrent, v, hv, hread⟩ := hlook
  -- where the certificates on disk are those read, the load is of what is on disk
  have hload : now.1 = h.cert.now.stamp →
      Tls.load pem h.cert.now.content h.key.now.content =
        readKey pem certificates h.key.now.content := by
    intro hstamp
    unfold Tls.load
    rw [hcurrent hstamp]
  cases hkey : readKey pem certificates h.key.now.content with
  | error err =>
    rw [advance_unloaded hphase hkey]
    refine hs.phase fun r hr hsame config hok => ?_
    have hstamp : now.1 = h.cert.now.stamp := by
      rw [← hseen r hr]
      exact congrArg Prod.fst hsame
    rw [hload hstamp, hkey] at hok
    cases hok
  | ok config =>
    have hloads : ∃ c ∈ h.cert.versions, ∃ k ∈ h.key.versions,
        Tls.load pem c.content k.content = .ok config := by
      refine ⟨v, hv, h.key.now, List.mem_cons_self, ?_⟩
      unfold Tls.load
      rw [hread]
      exact hkey
    have hup : now.1 = h.cert.now.stamp → ∀ config',
        Tls.load pem h.cert.now.content h.key.now.content = .ok config' → config = config' := by
      intro hstamp config' hok
      rw [hload hstamp, hkey] at hok
      exact Except.ok.inj hok
    -- the first load opens the server, a later one replaces its pair
    cases hserver : h.server with
    | none =>
      rw [advance_opened hphase hkey hserver]
      refine ⟨fun r hr hsame config' hok => ?_, fun r hr => ?_⟩
      · cases hr
        exact hup (congrArg Prod.fst hsame) config' hok
      · cases hr
        exact ⟨hhad.1, hhad.2, hloads⟩
    | some r =>
      rw [advance_loaded hphase hkey hserver]
      refine ⟨fun r' hr' hsame config' hok => ?_, fun r' hr' => ?_⟩
      · cases hr'
        refine hup ?_ config' hok
        rw [← hseen r hserver]
        exact congrArg Prod.fst hsame
      · cases hr'
        exact ⟨(hs.server r hserver).seen_cert, (hs.server r hserver).seen_key, hloads⟩

theorem Sound.advance (hs : h.Sound pem) : (h.advance pem).Sound pem := by
  cases hphase : h.phase with
  | idle =>
    have hlook := hs.look
    rw [hphase] at hlook
    rw [advance_idle hphase]
    exact hs.phase ⟨h.cert.had_now, hlook⟩
  | stamping stamp => exact hs.stamped hphase
  | reading now => exact hs.read hphase
  | loading now certificates => exact hs.load hphase

/-- **The invariant is kept** by whatever happens, if no stamp comes twice. -/
theorem Sound.step (hs : h.Sound pem) {e : Event Content Stamp} (hfresh : h.Fresh e) :
    (h.step pem e).Sound pem := by
  cases e with
  | writeCert v => exact hs.write_cert hfresh
  | writeKey v => exact hs.write_key hfresh
  | advance => exact hs.advance

/-! ## Looks that nothing disturbs -/

/-- So many reads, with no write between them. -/
def advances (pem : Pem Content Certificate Key Config)
    (h : Host Content Certificate Config Stamp) (turns : Nat) :
    Host Content Certificate Config Stamp :=
  (Host.advance pem)^[turns] h

theorem advances_succ (h : Host Content Certificate Config Stamp) (turns : Nat) :
    h.advances pem (turns + 1) = (h.advances pem turns).advance pem :=
  Function.iterate_succ_apply' ..

/-- A look from here on ends after so many reads, and leaves the server so. -/
structure Looked (pem : Pem Content Certificate Key Config)
    (h : Host Content Certificate Config Stamp) (turns : Nat) (r : Reloading Config Stamp) :
    Prop where
  turns_le : turns ≤ 4
  ends : h.advances pem turns = { h with server := some r, phase := .idle }
  first : ∀ m, 0 < m → m < turns → (h.advances pem m).phase ≠ .idle
  seen : r.seen = h.stamps

/-- The stamps are remembered, and looks find them again. -/
structure Settled (h : Host Content Certificate Config Stamp) (r : Reloading Config Stamp) :
    Prop where
  server : h.server = some r
  seen : r.seen = h.stamps
  phase : h.phase = .idle ∨ h.phase = .stamping h.cert.now.stamp

theorem Settled.advance (hs : h.Settled r) : (h.advance pem).Settled r := by
  rcases hs.phase with hphase | hphase
  · rw [advance_idle hphase]
    exact ⟨hs.server, hs.seen, .inr rfl⟩
  · rw [advance_same hphase hs.server hs.seen]
    exact ⟨hs.server, hs.seen, .inl rfl⟩

/-- **What did not load is not tried again** as long as the files stay as they are. -/
theorem Settled.advances (hs : h.Settled r) (turns : Nat) : (h.advances pem turns).Settled r := by
  induction turns with
  | zero => exact hs
  | succ turns ih =>
    rw [advances_succ]
    exact ih.advance

/-- **A look that nothing disturbs** leaves the server with what is on disk, or if that does
not load, as it was. -/
theorem Sound.looked (hs : h.Sound pem) (hphase : h.phase = .idle) (hserver : h.server = some r) :
    ∃ turns r', h.Looked pem turns r' ∧
      match Tls.load pem h.cert.now.content h.key.now.content with
      | .ok config => r'.current = config
      | .error _ => r'.current = r.current := by
  have h1 : h.advances pem 1 = { h with phase := .stamping h.cert.now.stamp } :=
    advance_idle hphase
  -- the remembered stamps are those on disk: nothing is loaded
  by_cases hseen : r.seen = h.stamps
  · have h2 : h.advances pem 2 = { h with phase := .idle } := by
      rw [advances_succ, h1]
      exact advance_same rfl hserver hseen
    refine ⟨2, r, ⟨by decide, ?_, fun m hpos hlt => ?_, hseen⟩, ?_⟩
    · rw [h2, ← hserver]
    · obtain rfl : m = 1 := by omega
      rw [h1]
      exact nofun
    · have hlook := hs.look
      rw [hphase] at hlook
      have hup := hlook r hserver hseen
      cases hload : Tls.load pem h.cert.now.content h.key.now.content with
      | error err => rfl
      | ok config => exact hup config hload
  -- else the stamps are remembered before the files are read
  have h2 : h.advances pem 2 =
      { h with server := some { r with seen := h.stamps }, phase := .reading h.stamps } := by
    rw [advances_succ, h1]
    exact advance_changed rfl hserver hseen
  cases hread : readCertificates pem h.cert.now.content with
  | error err =>
    -- the certificates do not read: the key is not looked at
    have h3 : h.advances pem 3 =
        { h with server := some { r with seen := h.stamps }, phase := .idle } := by
      rw [advances_succ, h2]
      exact advance_unread rfl hread
    refine ⟨3, { r with seen := h.stamps }, ⟨by decide, h3, fun m hpos hlt => ?_, rfl⟩, ?_⟩
    · obtain rfl | rfl : m = 1 ∨ m = 2 := by omega
      · rw [h1]
        exact nofun
      · rw [h2]
        exact nofun
    · unfold Tls.load
      rw [hread]
  | ok certificates =>
    have h3 : h.advances pem 3 = { h with
        server := some { r with seen := h.stamps }
        phase := .loading h.stamps certificates } := by
      rw [advances_succ, h2]
      exact advance_read rfl hread
    have hload : Tls.load pem h.cert.now.content h.key.now.content =
        readKey pem certificates h.key.now.content := by
      unfold Tls.load
      rw [hread]
    have hfirst : ∀ m, 0 < m → m < 4 → (h.advances pem m).phase ≠ .idle := by
      intro m hpos hlt
      obtain rfl | rfl | rfl : m = 1 ∨ m = 2 ∨ m = 3 := by omega
      · rw [h1]
        exact nofun
      · rw [h2]
        exact nofun
      · rw [h3]
        exact nofun
    -- the key decides whether the pair is taken up
    cases hkey : readKey pem certificates h.key.now.content with
    | error err =>
      have h4 : h.advances pem 4 =
          { h with server := some { r with seen := h.stamps }, phase := .idle } := by
        rw [advances_succ, h3]
        exact advance_unloaded rfl hkey
      refine ⟨4, { r with seen := h.stamps }, ⟨Nat.le_refl _, h4, hfirst, rfl⟩, ?_⟩
      rw [hload, hkey]
    | ok config =>
      have h4 : h.advances pem 4 =
          { h with server := some ⟨config, h.stamps⟩, phase := .idle } := by
        rw [advances_succ, h3]
        exact advance_loaded (r := { r with seen := h.stamps }) rfl hkey rfl
      refine ⟨4, ⟨config, h.stamps⟩, ⟨Nat.le_refl _, h4, hfirst, rfl⟩, ?_⟩
      rw [hload, hkey]

/-! ## Looks that writes disturb -/

/-- A write makes the remembered stamps others than those on disk. -/
theorem Sound.write (hs : h.Sound pem) {e : Event Content Stamp} (hwrite : e.isWrite = true)
    (hfresh : h.Fresh e) (hserver : h.server = some r) :
    (h.step pem e).server = some r ∧ r.seen ≠ (h.step pem e).stamps := by
  cases e with
  | writeCert v =>
    exact ⟨hserver, fun hseen => (hs.server r hserver).seen_cert.ne hfresh
      (congrArg Prod.fst hseen)⟩
  | writeKey v =>
    exact ⟨hserver, fun hseen => (hs.server r hserver).seen_key.ne hfresh
      (congrArg Prod.snd hseen)⟩
  | advance => cases hwrite

/-- Writes between the two reads of the stamps do not make the second one that of what was
remembered, if it was not. -/
theorem writes_unseen {writes : List (Event Content Stamp)} {stamp : Stamp}
    (hwrites : ∀ e ∈ writes, e.isWrite = true)
    (hfresh : Runs.Along (step pem) Fresh h writes) (hphase : h.phase = .stamping stamp)
    (hserver : h.server = some r) (hhad : h.key.Had r.seen.2)
    (hseen : r.seen.1 ≠ stamp ∨ r.seen.2 ≠ h.key.now.stamp) :
    let h' := Runs.run (step pem) h writes
    h'.phase = .stamping stamp ∧ h'.server = some r ∧
      (r.seen.1 ≠ stamp ∨ r.seen.2 ≠ h'.key.now.stamp) := by
  induction writes generalizing h with
  | nil => exact ⟨hphase, hserver, hseen⟩
  | cons e writes ih =>
    obtain ⟨he, hrest⟩ := List.forall_mem_cons.mp hwrites
    obtain ⟨hfreshe, hfresh'⟩ := hfresh
    cases e with
    | writeCert v => exact ih hrest hfresh' hphase hserver hhad hseen
    | writeKey v => exact ih hrest hfresh' hphase hserver hhad.write (.inr (hhad.ne hfreshe))
    | advance => cases he

/-- **No write is missed**: a look that begins with other stamps on disk than those that
were remembered goes on to load, whatever is written meanwhile. -/
theorem Sound.goes_on (hs : h.Sound pem) (hphase : h.phase = .idle) (hserver : h.server = some r)
    (hseen : r.seen ≠ h.stamps) {writes : List (Event Content Stamp)}
    (hwrites : ∀ e ∈ writes, e.isWrite = true)
    (hfresh : Runs.Along (Host.step pem) Fresh (h.advance pem) writes) :
    ∃ now, (Runs.run (Host.step pem) h (.advance :: (writes ++ [.advance]))).phase =
      .reading now := by
  have hparts : r.seen.1 ≠ h.cert.now.stamp ∨ r.seen.2 ≠ h.key.now.stamp := by
    by_contra hboth
    simp only [ne_eq, not_or, not_not] at hboth
    exact hseen (Prod.ext hboth.1 hboth.2)
  rw [advance_idle hphase] at hfresh
  obtain ⟨hphase', hserver', hparts'⟩ := writes_unseen (r := r) hwrites hfresh rfl
    hserver (hs.server r hserver).seen_key hparts
  rw [Runs.run_cons, Runs.run_append]
  show ∃ now, ((Runs.run (Host.step pem) (h.advance pem) writes).advance pem).phase = .reading now
  rw [advance_idle hphase]
  rw [advance_changed hphase' hserver' fun heq => hparts'.elim
    (fun h1 => h1 (congrArg Prod.fst heq)) fun h2 => h2 (congrArg Prod.snd heq)]
  exact ⟨_, rfl⟩

/-- **Reloading converges.** In every run in which no stamp comes twice, from before the
server was opened on: what the server has was loaded. A look that nothing disturbs leaves it
with what is on disk, or as it was if that does not load. As long as the stamps on disk are
those that were remembered, looks load nothing. A write makes them others, and a look that
finds others goes on to load. -/
theorem reload_run {h₀ : Host Content Certificate Config Stamp} (hserver : h₀.server = none)
    (hphase : h₀.phase = .idle) {es : List (Event Content Stamp)}
    (hfresh : Runs.Along (step pem) Fresh h₀ es) :
    let h := Runs.run (step pem) h₀ es
    ∀ r, h.server = some r →
      (∃ c ∈ h.cert.versions, ∃ k ∈ h.key.versions,
        Tls.load pem c.content k.content = .ok r.current) ∧
      (h.phase = .idle → ∃ turns r', h.Looked pem turns r' ∧
        match Tls.load pem h.cert.now.content h.key.now.content with
        | .ok config => r'.current = config
        | .error _ => r'.current = r.current) ∧
      (h.phase = .idle → r.seen = h.stamps → ∀ turns, (h.advances pem turns).Settled r) ∧
      (h.phase = .idle → r.seen ≠ h.stamps → ∀ writes : List (Event Content Stamp),
        (∀ e ∈ writes, e.isWrite = true) →
        Runs.Along (step pem) Fresh (h.advance pem) writes →
        ∃ now, (Runs.run (step pem) h (.advance :: (writes ++ [.advance]))).phase =
          .reading now) ∧
      ∀ e : Event Content Stamp, e.isWrite = true → h.Fresh e →
        (h.step pem e).server = some r ∧ r.seen ≠ (h.step pem e).stamps := by
  have hsound : (Runs.run (step pem) h₀ es).Sound pem :=
    Runs.invariant (step pem) (fun _ _ hs he => hs.step he) (sound_initial hserver hphase) hfresh
  intro h r hr
  exact ⟨(hsound.server r hr).current, fun hidle => hsound.looked hidle hr,
    fun hidle hseen turns => Settled.advances ⟨hr, hseen, .inl hidle⟩ turns,
    fun hidle hseen _ hwrites halong => hsound.goes_on hidle hr hseen hwrites halong,
    fun e hwrite hfreshe => hsound.write hwrite hfreshe hr⟩

end

end Host

end

namespace Sample

/-- Files hold numbers; a pair is two equal ones. -/
def pem : Pem Nat Nat Nat Nat where
  certificates content := .ok [content]
  key content := .ok content
  withSingleCert certificates key :=
    if certificates = [key] then .ok key else .error "the key is another's"

def host : Host Nat Nat Nat Nat := ⟨⟨⟨1, 0⟩, []⟩, ⟨⟨1, 0⟩, []⟩, none, .idle⟩

/-- The pair is opened; a look comes after the certificate was written, and another key is
written after the look has read the stamps and before it reads the files. -/
def overtaken : List (Event Nat Nat) :=
  [.advance, .advance, .advance, .advance, .writeCert ⟨2, 1⟩, .advance, .advance,
    .writeKey ⟨3, 1⟩, .advance]

/-- The pair is opened; a renewal writes the certificate, and a look comes between that and
the write of the key. -/
def renewal : List (Event Nat Nat) :=
  [.advance, .advance, .advance, .advance, .writeCert ⟨2, 1⟩, .advance, .advance, .advance,
    .advance, .writeKey ⟨2, 1⟩]

end Sample

/-- A look whose stamps are older than what it reads remembers them with a pair that does not
load. Nothing is written from there on, and the next look loads the same pair again. -/
theorem reload_retried :
    Runs.Along (Host.step Sample.pem) Host.Fresh Sample.host Sample.overtaken ∧
      let h := Runs.run (Host.step Sample.pem) Sample.host Sample.overtaken
      h.phase = .loading (1, 0) [2] ∧
        (Tls.load Sample.pem h.cert.now.content h.key.now.content).isOk = false ∧
        h.advances Sample.pem 1 = { h with phase := .idle } ∧
        (h.advances Sample.pem 4).phase = .loading (1, 1) [2] ∧
        h.advances Sample.pem 5 =
          { h with server := some ⟨1, (1, 1)⟩, phase := .idle } := by
  decide

/-- The next look finds the pair. -/
theorem reload_renewal :
    let h := Runs.run (Host.step Sample.pem) Sample.host Sample.renewal
    h.server = some ⟨1, (1, 0)⟩ ∧
      ∃ turns r, h.Looked Sample.pem turns r ∧ r.current = 2 :=
  ⟨by decide, (@Host.reload_run _ _ _ _ _ Sample.pem _ Sample.host rfl rfl Sample.renewal
    (by decide) ⟨1, (1, 0)⟩ (by decide)).2.1 (by decide)⟩

end Tls

end Passalong
