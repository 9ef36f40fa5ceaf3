import Mathlib.Data.List.DropRight
import Passalong.Addresses
import Passalong.Texts

/-!
# Whose address a request has (`rate.rs`)

Behind a proxy the client's address is the last entry of `X-Forwarded-For`, the one the
proxy itself appended; whatever stands before it came from the client. A proxy appends in
one of two ways: a further header line, or `, ` and the address at the end of the last one.

`client_address` reads the last line as text before it looks for the entry. The `http` crate
does that (`Http.toStr`), and by its documentation a line is text only if each of its bytes is
visible ASCII or a tab (`Http.ReadsVisible`). What the client wrote into that line is decoded
along with what the proxy appended: one byte of other text, which a header may hold, and the
request is the proxy's own (`clientAddress_obsText`). The line that the client wrote last
decides, and nothing else it sent does (`clientAddress_forward_iff`).
-/

namespace Passalong

/-! ## Header lines -/

/-- What a header line may hold: tabs, and all that is no control character. Bytes from
128 on are obs-text. -/
def isHeaderByte (b : UInt8) : Bool := (32 ≤ b && b ≠ 127) || b = 9

/-- `is_visible_ascii`, with the tab it allows. -/
def isVisible (b : UInt8) : Bool := (32 ≤ b && b < 127) || b = 9

structure HeaderValue where
  bytes : List UInt8
  valid : ∀ b ∈ bytes, isHeaderByte b

/-- What is used of the `http` crate: the text of a header's line, if it is text. -/
class Http where
  toStr : HeaderValue → Option (List Char)

/-- What `HeaderValue::to_str` is documented to do. -/
structure Http.ReadsVisible [Http] : Prop where
  visible : ∀ value : HeaderValue, (∀ b ∈ value.bytes, isVisible b) →
    toStr value = some (value.bytes.map fun b => Char.ofNat b.toNat)
  invisible : ∀ value : HeaderValue, ∀ b ∈ value.bytes, ¬isVisible b → toStr value = none

namespace HeaderValue

/-- One line after the other. -/
def append (front back : HeaderValue) : HeaderValue where
  bytes := front.bytes ++ back.bytes
  valid b hb := (List.mem_append.mp hb).elim (front.valid b) (back.valid b)

/-- `, ` -/
def comma : HeaderValue where
  bytes := [44, 32]
  valid := by simp [isHeaderByte]

section

variable [Http]

/-- `to_str` -/
def toStr (value : HeaderValue) : Option (List Char) := Http.toStr value

theorem toStr_eq_some (hhttp : Http.ReadsVisible) {value : HeaderValue} {s : List Char} :
    value.toStr = some s ↔
      (∀ b ∈ value.bytes, isVisible b) ∧ value.bytes.map (fun b => Char.ofNat b.toNat) = s := by
  by_cases hall : ∀ b ∈ value.bytes, isVisible b
  · rw [toStr, hhttp.visible value hall, Option.some_inj]
    exact (and_iff_right hall).symm
  · obtain ⟨b, hb, hother⟩ : ∃ b ∈ value.bytes, ¬isVisible b := by simpa using hall
    rw [toStr, hhttp.invisible value b hb hother]
    exact ⟨fun h => (by cases h), fun h => absurd h.1 hall⟩

theorem isSome_toStr_iff (hhttp : Http.ReadsVisible) (value : HeaderValue) :
    value.toStr.isSome ↔ ∀ b ∈ value.bytes, isVisible b := by
  rw [Option.isSome_iff_exists]
  constructor
  · rintro ⟨s, hs⟩
    exact ((toStr_eq_some hhttp).mp hs).1
  · intro hall
    exact ⟨_, (toStr_eq_some hhttp).mpr ⟨hall, rfl⟩⟩

theorem toStr_append (hhttp : Http.ReadsVisible) {front back : HeaderValue} {s t : List Char}
    (hfront : front.toStr = some s) (hback : back.toStr = some t) :
    (front.append back).toStr = some (s ++ t) := by
  obtain ⟨hs, rfl⟩ := (toStr_eq_some hhttp).mp hfront
  obtain ⟨ht, rfl⟩ := (toStr_eq_some hhttp).mp hback
  exact (toStr_eq_some hhttp).mpr
    ⟨List.forall_mem_append.mpr ⟨hs, ht⟩, List.map_append⟩

/-- What cannot be read is not read with more after it, either. -/
theorem toStr_append_eq_none (hhttp : Http.ReadsVisible) {front : HeaderValue}
    (back : HeaderValue) (h : front.toStr = none) : (front.append back).toStr = none := by
  rw [← Option.not_isSome_iff_eq_none, isSome_toStr_iff hhttp] at h ⊢
  exact fun hall => h (List.forall_mem_append.mp hall).1

end

end HeaderValue

/-- The lines of each header, in the order they came in. -/
abbrev HeaderMap := String → List HeaderValue

/-! ## The client's address -/

section

variable [Http]

/-- `client_address`: behind a proxy the last entry of `X-Forwarded-For`. Without the header,
or with no address in that place, it is the peer. -/
def clientAddress (peer : IpAddr) (headers : HeaderMap) (behindProxy : Bool) : IpAddr :=
  if !behindProxy then peer
  else
    let entry := do
      let value ← (headers "x-forwarded-for").getLast?
      let chain ← value.toStr
      let last := chain.rtakeWhile fun c => c ≠ ','
      parseIp (trim last)
    entry.getD peer

end

/-- How a proxy hands on who its client is. -/
inductive Proxy where
  | sameLine
  | furtherLine
  deriving DecidableEq

/-- The lines of `X-Forwarded-For` behind the proxy: what the client sent, with the entry
the proxy wrote after it. If there is no line it writes one. -/
def Proxy.append (proxy : Proxy) (sent : List HeaderValue) (entry : HeaderValue) :
    List HeaderValue :=
  match proxy, sent.getLast? with
  | .sameLine, some last => sent.dropLast ++ [(last.append .comma).append entry]
  | _, _ => sent ++ [entry]

/-- The headers of a request behind the proxy. -/
def Proxy.forward (proxy : Proxy) (sent : HeaderMap) (entry : HeaderValue) : HeaderMap :=
  Function.update sent "x-forwarded-for" (proxy.append (sent "x-forwarded-for") entry)

/-- The proxy's entry is on a line of its own, or on one that can be read. -/
def Readable (proxy : Proxy) (sent : HeaderMap) : Prop :=
  proxy = .furtherLine ∨
    ∀ last ∈ (sent "x-forwarded-for").getLast?, ∀ b ∈ last.bytes, isVisible b

/-- The last line alone is read. -/
theorem clientAddress_of_getLast [Http] {peer : IpAddr} {headers : HeaderMap} {value : HeaderValue}
    (h : (headers "x-forwarded-for").getLast? = some value) :
    clientAddress peer headers true =
      ((value.toStr.bind fun chain =>
        parseIp (trim (chain.rtakeWhile fun c => c ≠ ','))).getD peer) := by
  unfold clientAddress
  rw [h]
  rfl

theorem not_isWhitespace_of_isAddressChar {c : Char} (h : isAddressChar c) :
    isWhitespace c = false := by
  have hrange := range_of_isAddressChar h
  unfold isWhitespace
  simp only [Bool.or_eq_false_iff, Bool.and_eq_false_iff, decide_eq_false_iff_not]
  omega

theorem ne_comma_of_isAddressChar {c : Char} (h : isAddressChar c) : c ≠ ',' := by
  rintro rfl
  have hrange := range_of_isAddressChar h
  simp only [Char.reduceToNat] at hrange
  omega

/-- There is nothing to trim from an address. -/
theorem trim_of_addressChars {t : List Char} (ht : ∀ c ∈ t, isAddressChar c) : trim t = t := by
  refine trim_eq ?_ ?_
  · intro c hc
    exact not_isWhitespace_of_isAddressChar (ht c (List.mem_of_mem_head? hc))
  · intro c hc
    exact not_isWhitespace_of_isAddressChar (ht c (List.mem_of_mem_getLast? hc))

/-- The entry is what stands after the last comma, without the space before it. -/
theorem trim_rtakeWhile_entry (before : List Char) {t : List Char}
    (ht : ∀ c ∈ t, isAddressChar c) :
    trim ((before ++ ',' :: ' ' :: t).rtakeWhile fun c => c ≠ ',') = t := by
  have hrest : ∀ c ∈ (' ' :: t).reverse, decide (c ≠ ',') = true := by
    intro c hc
    refine decide_eq_true ?_
    rcases List.mem_cons.mp (List.mem_reverse.mp hc) with rfl | h
    · decide
    · exact ne_comma_of_isAddressChar (ht c h)
  have hreverse : (before ++ ',' :: ' ' :: t).reverse =
      (' ' :: t).reverse ++ ',' :: before.reverse := by simp
  have hlast : (before ++ ',' :: ' ' :: t).rtakeWhile (fun c => decide (c ≠ ',')) = ' ' :: t := by
    unfold List.rtakeWhile
    rw [hreverse, List.takeWhile_append_of_pos hrest, List.takeWhile_cons_of_neg (by simp),
      List.append_nil, List.reverse_reverse]
  have hspace := @trim_around [' '] t [] (by simp [isWhitespace]) (by simp)
  rw [List.append_nil] at hspace
  rw [hlast]
  exact hspace.trans (trim_of_addressChars ht)

/-- On a line of its own the entry is the whole line. -/
theorem trim_rtakeWhile_alone {t : List Char} (ht : ∀ c ∈ t, isAddressChar c) :
    trim (t.rtakeWhile fun c => c ≠ ',') = t := by
  have hall : t.rtakeWhile (fun c => decide (c ≠ ',')) = t :=
    List.rtakeWhile_eq_self_iff.mpr fun c hc => decide_eq_true (ne_comma_of_isAddressChar (ht c hc))
  rw [hall]
  exact trim_of_addressChars ht

section Forwarding

variable [Http] {peer address : IpAddr} {entry : HeaderValue} {t : List Char}

omit [Http] in
theorem forward_forwardedFor (proxy : Proxy) (sent : HeaderMap) (entry : HeaderValue) :
    proxy.forward sent entry "x-forwarded-for" = proxy.append (sent "x-forwarded-for") entry :=
  Function.update_self ..

/-- A line that begins with the entry is the entry. -/
theorem clientAddress_alone {headers : HeaderMap} (htext : entry.toStr = some t)
    (haddress : parseIp t = some address)
    (hlast : (headers "x-forwarded-for").getLast? = some entry) :
    clientAddress peer headers true = address := by
  rw [clientAddress_of_getLast hlast, htext, Option.bind_some,
    trim_rtakeWhile_alone (addressChars_of_parseIp haddress), haddress]
  rfl

theorem clientAddress_behind (hhttp : Http.ReadsVisible) {headers : HeaderMap}
    {last : HeaderValue} {s : List Char} (htext : entry.toStr = some t)
    (haddress : parseIp t = some address) (hs : last.toStr = some s)
    (hlast : (headers "x-forwarded-for").getLast? = some ((last.append .comma).append entry)) :
    clientAddress peer headers true = address := by
  have hcomma : HeaderValue.comma.toStr = some [',', ' '] :=
    (HeaderValue.toStr_eq_some hhttp).mpr
      ⟨by simp [HeaderValue.comma, isVisible], by decide⟩
  have hline : ((last.append .comma).append entry).toStr = some (s ++ ',' :: ' ' :: t) := by
    rw [HeaderValue.toStr_append hhttp (HeaderValue.toStr_append hhttp hs hcomma) htext]
    simp
  rw [clientAddress_of_getLast hlast, hline, Option.bind_some,
    trim_rtakeWhile_entry s (addressChars_of_parseIp haddress), haddress]
  rfl

/-- A line that cannot be read is the proxy's own. -/
theorem clientAddress_unreadable (hhttp : Http.ReadsVisible) {headers : HeaderMap}
    {last : HeaderValue} (hs : last.toStr = none)
    (hlast : (headers "x-forwarded-for").getLast? = some ((last.append .comma).append entry)) :
    clientAddress peer headers true = peer := by
  rw [clientAddress_of_getLast hlast,
    HeaderValue.toStr_append_eq_none hhttp entry
      (HeaderValue.toStr_append_eq_none hhttp _ hs)]
  rfl

/-- **The line the client wrote last decides.** -/
theorem clientAddress_forward (hhttp : Http.ReadsVisible) (proxy : Proxy) (sent : HeaderMap)
    (htext : entry.toStr = some t) (haddress : parseIp t = some address)
    [Decidable (Readable proxy sent)] :
    clientAddress peer (proxy.forward sent entry) true =
      if Readable proxy sent then address else peer := by
  have hforward := forward_forwardedFor proxy sent entry
  -- where the entry stands on a line of its own it is all that is read
  have halone : proxy.append (sent "x-forwarded-for") entry = sent "x-forwarded-for" ++ [entry] →
      clientAddress peer (proxy.forward sent entry) true = address := by
    intro h
    refine clientAddress_alone htext haddress ?_
    rw [hforward, h, List.getLast?_concat]
  cases proxy with
  | furtherLine =>
    rw [if_pos (show Readable .furtherLine sent from .inl rfl)]
    exact halone rfl
  | sameLine =>
    cases hlast : (sent "x-forwarded-for").getLast? with
    | none =>
      have hreadable : Readable .sameLine sent := .inr (by simp [hlast])
      rw [if_pos hreadable]
      refine halone ?_
      unfold Proxy.append
      rw [hlast]
    | some last =>
      -- joined to the last line, it is read when that line reads as text
      have hline : (Proxy.sameLine.forward sent entry "x-forwarded-for").getLast? =
          some ((last.append .comma).append entry) := by
        rw [hforward]
        unfold Proxy.append
        rw [hlast]
        exact List.getLast?_concat
      have hiff : Readable .sameLine sent ↔ last.toStr.isSome := by
        rw [HeaderValue.isSome_toStr_iff hhttp]
        constructor
        · rintro (h | h)
          · cases h
          · exact h last hlast
        · intro h
          refine .inr fun last' hlast' => ?_
          rw [hlast] at hlast'
          cases hlast'
          exact h
      cases hs : last.toStr with
      | some s =>
        rw [if_pos (hiff.mpr (by rw [hs]; rfl))]
        exact clientAddress_behind hhttp htext haddress hs hline
      | none =>
        rw [if_neg fun h => by simpa [hs] using hiff.mp h]
        exact clientAddress_unreadable hhttp hs hline

/-- **Two requests of a client have its address if both can be read.** Whatever else the
client sent, on the lines before and in the rest of the last one, is not looked at. The
proxy's own address is moved nowhere, of course. -/
theorem clientAddress_forward_iff (hhttp : Http.ReadsVisible) (proxy : Proxy)
    (sent sent' : HeaderMap) (hentry : entry.toStr.bind parseIp = some address) :
    (clientAddress peer (proxy.forward sent entry) true =
          clientAddress peer (proxy.forward sent' entry) true ∧
        clientAddress peer (proxy.forward sent entry) true = address) ↔
      (Readable proxy sent ∧ Readable proxy sent') ∨ peer = address := by
  classical
  obtain ⟨t, htext, haddress⟩ := Option.bind_eq_some_iff.mp hentry
  have hsent : clientAddress peer (proxy.forward sent entry) true =
      if Readable proxy sent then address else peer :=
    clientAddress_forward hhttp proxy sent htext haddress
  have hsent' : clientAddress peer (proxy.forward sent' entry) true =
      if Readable proxy sent' then address else peer :=
    clientAddress_forward hhttp proxy sent' htext haddress
  rw [hsent, hsent']
  by_cases hpeer : peer = address
  · simp [hpeer]
  · by_cases h : Readable proxy sent
    · by_cases h' : Readable proxy sent'
      · simp [h, h']
      · simp [h, h', hpeer, Ne.symm hpeer]
    · simp [h, hpeer]

end Forwarding

namespace Sample

/-- `to_str` as the `http` crate has it. -/
@[reducible] def http : Http where
  toStr value :=
    if value.bytes.all isVisible then some (value.bytes.map fun b => Char.ofNat b.toNat) else none

theorem http_readsVisible : @Http.ReadsVisible http :=
  @Http.ReadsVisible.mk http (fun _ hall => if_pos (List.all_eq_true.mpr hall))
    fun _ b hb hother => if_neg fun hall => hother (List.all_eq_true.mp hall b hb)

/-- `10.0.0.2` -/
def proxyAddress : IpAddr := .v4 0x0a000002

/-- `203.0.113.9` -/
def visitor : IpAddr := .v4 0xcb007109

def visitorEntry : HeaderValue where
  bytes := [50, 48, 51, 46, 48, 46, 49, 49, 51, 46, 57]
  valid := by decide +kernel

def obsText : HeaderValue where
  bytes := [0xff]
  valid := by decide +kernel

def forwardedFor (lines : List HeaderValue) : HeaderMap := fun name =>
  if name = "x-forwarded-for" then lines else []

end Sample

open Sample in
/-- Whether the client sends an address of its own or nothing, it is the one the proxy saw. -/
theorem clientAddress_forward_sample :
    @clientAddress http proxyAddress (Proxy.sameLine.forward (forwardedFor [visitorEntry])
        visitorEntry) true =
      @clientAddress http proxyAddress (Proxy.sameLine.forward (forwardedFor []) visitorEntry)
        true ∧
    @clientAddress http proxyAddress (Proxy.sameLine.forward (forwardedFor [visitorEntry])
        visitorEntry) true = visitor := by
  refine (@clientAddress_forward_iff http proxyAddress visitor visitorEntry http_readsVisible
    .sameLine (forwardedFor [visitorEntry]) (forwardedFor []) (by decide +kernel)).mpr
      (.inl ⟨.inr ?_, .inr ?_⟩)
  · decide +kernel
  · decide +kernel

open Sample in
/-- **With a byte of obs-text before it the entry is not read**: the request is the proxy's. -/
theorem clientAddress_obsText :
    ¬∀ (peer address : IpAddr) (entry : HeaderValue) (proxy : Proxy) (sent sent' : HeaderMap),
      (@HeaderValue.toStr http entry).bind parseIp = some address →
      @clientAddress http peer (proxy.forward sent entry) true =
          @clientAddress http peer (proxy.forward sent' entry) true ∧
        @clientAddress http peer (proxy.forward sent entry) true = address := by
  intro h
  have hmoved := (h proxyAddress visitor visitorEntry .sameLine (forwardedFor [obsText])
    (forwardedFor []) (by decide +kernel)).2
  have hpeer : @clientAddress http proxyAddress (Proxy.sameLine.forward (forwardedFor [obsText])
      visitorEntry) true = proxyAddress := by decide +kernel
  rw [hpeer] at hmoved
  revert hmoved
  decide +kernel

end Passalong
