import Mathlib.Data.PNat.Basic
import Passalong.Lib.Runs
import Passalong.ContentRead

/-!
# From a body to the shelf (`bridge.rs`, `pump`)

A request's body comes in frames. The task that `read_body` spawns cuts them into pieces and
sends these through a channel that holds `depth` of them; `BodyReader` takes the pieces out,
and `pump` reads from it, hands what it gets to a sink, and refuses more than was announced.
The two sides run at the same time, so a run is a list of actions: of the task, of the
reader, with buffers of any size, and reads that are interrupted.

`Ahead` says what the reader has not got yet, and carries the invariant: what the sink has
and what is ahead are the content (`Open`). So every run that ends gives the sink the
content, or a prefix of it if it is too long, whatever the frames, the sizes of the reads and
the order of the steps are (`content_uncut`); and it does end (`over_of_fair`). What the shelf
makes of the reads is what `pump` says of them (`pump_reads`).
-/

namespace Passalong

namespace Bridge

open Lib

/-! ## Bodies -/

/-- A frame of a body. -/
inductive Frame where
  | data (bytes : Bytes)
  | trailers
  deriving DecidableEq, Repr

def Frame.bytes : Frame → Bytes
  | .data bytes => bytes
  | .trailers => []

/-- A content that is sent, as it comes, and what was announced. -/
structure Sending where
  frames : List Frame
  /-- The body fails after its frames. -/
  fails : Bool
  announced : Nat
  /-- A SHA-256 is asked for. -/
  hashed : Bool
  deriving DecidableEq, Repr

def Sending.content (p : Sending) : Bytes := p.frames.flatMap Frame.bytes

/-- What crosses the channel. -/
inductive Piece where
  | ok (bytes : Bytes)
  | failed
  deriving DecidableEq, Repr

/-! ## `pump` -/

/-- How `pump` ended. -/
inductive Ended where
  | answered (answer : Except ApiError Nat)
  /-- `total` is more than a `u64` holds. -/
  | overflowed

/-- What a sink says to a piece, after those it has. -/
abbrev Sink : Type := List Bytes → Bytes → Except ApiError Unit

def Sink.TakesAll (sink : Sink) : Prop := ∀ sunk piece, sink sunk piece = .ok ()

def unread : ApiError := .invalidRequest "the content could not be read to its end"

/-- The loop of `pump`. -/
structure Pumping where
  total : Nat
  /-- What the hasher was fed, if there is one. -/
  hasher : Option Bytes
  /-- The pieces that the sink has. -/
  sunk : List Bytes
  ended : Option Ended

/-- A turn of the loop, for what a read gave. -/
def Pumping.turn (sink : Sink) (announced : Nat) (q : Pumping) : Read → Pumping
  | .interrupted => q
  | .failed => { q with ended := some (.answered (.error unread)) }
  | .piece bytes =>
    -- no bytes are the end of the content
    if bytes = [] then { q with ended := some (.answered (.ok q.total)) }
    else if u64Bound ≤ q.total + bytes.length then { q with ended := some .overflowed }
    else if announced < q.total + bytes.length then
      { q with
        total := q.total + bytes.length
        ended := some (.answered (.error .contentMismatch)) }
    else
      match sink q.sunk bytes with
      | .ok () =>
        { q with
          total := q.total + bytes.length
          hasher := q.hasher.map (· ++ bytes)
          sunk := q.sunk ++ [bytes] }
      | .error e =>
        { q with
          total := q.total + bytes.length
          hasher := q.hasher.map (· ++ bytes)
          ended := some (.answered (.error e)) }

/-! ## Both sides -/

/-- How many pieces may wait in the channel. -/
def depth : Nat := 8

/-- The task of `read_body`. -/
structure Task where
  /-- The frames that are still to come. -/
  frames : List Frame
  /-- What is left of the frame that it cuts. -/
  data : Bytes
  /-- It has returned, and its end of the channel is closed. -/
  returned : Bool
  deriving DecidableEq, Repr

/-- A content on its way. -/
structure Transfer where
  task : Task
  channel : List Piece
  /-- What the reader has taken out of the channel, and not handed out. -/
  current : Bytes
  /-- The reader was dropped. -/
  gone : Bool
  pumping : Pumping

/-- What can happen. -/
inductive Action where
  /-- A step of the task. -/
  | task
  /-- A step of the reader, for a buffer of a size. -/
  | read (size : ℕ+)
  /-- A read that is interrupted. -/
  | interrupted
  /-- The reader is dropped, once `pump` has ended. -/
  | drop
  deriving DecidableEq

/-- The three that go on by themselves. -/
inductive Party where
  | task
  | reader
  | owner
  deriving DecidableEq

def Action.party : Action → Option Party
  | .task => some .task
  | .read _ => some .reader
  | .interrupted => none
  | .drop => some .owner

namespace Transfer

/-- The task sends a piece, and is then as `sent` says. It waits while the channel is full,
and returns if the reader is gone. -/
def send (t : Transfer) (piece : Piece) (sent : Task) : Transfer :=
  if t.gone then { t with task := { t.task with returned := true } }
  else if t.channel.length < depth then { t with channel := t.channel ++ [piece], task := sent }
  else t

def stepTask (p : Sending) (t : Transfer) : Transfer :=
  if t.task.returned then t
  else
    match t.task.data, t.task.frames with
    | b :: bs, frames =>
      t.send (.ok ((b :: bs).take pieceSize)) ⟨frames, (b :: bs).drop pieceSize, false⟩
    | [], .data bytes :: frames => { t with task := ⟨frames, bytes, false⟩ }
    | [], .trailers :: frames => { t with task := ⟨frames, [], false⟩ }
    | [], [] =>
      if p.fails then t.send .failed ⟨[], [], true⟩ else { t with task := ⟨[], [], true⟩ }

/-- The loop of `BodyReader::read`, up to the next piece, or the turn of `pump` for what it
returns. It waits while the channel is empty and the task goes on. -/
def stepRead (p : Sending) (sink : Sink) (size : ℕ+) (t : Transfer) : Transfer :=
  if t.pumping.ended.isSome then t
  else
    match t.current, t.channel with
    | b :: bs, _ =>
      { t with
        current := (b :: bs).drop size
        pumping := t.pumping.turn sink p.announced (.piece ((b :: bs).take size)) }
    | [], .ok bytes :: channel => { t with current := bytes, channel := channel }
    | [], .failed :: channel =>
      { t with channel := channel, pumping := t.pumping.turn sink p.announced .failed }
    | [], [] =>
      if t.task.returned then
        { t with pumping := t.pumping.turn sink p.announced (.piece []) }
      else t

def step (p : Sending) (sink : Sink) (t : Transfer) : Action → Transfer
  | .task => t.stepTask p
  | .read size => t.stepRead p sink size
  | .interrupted =>
    if t.pumping.ended.isSome then t
    else { t with pumping := t.pumping.turn sink p.announced .interrupted }
  | .drop => if t.pumping.ended.isSome then { t with gone := true } else t

end Transfer

def Sending.start (p : Sending) : Transfer where
  task := ⟨p.frames, [], false⟩
  channel := []
  current := []
  gone := false
  pumping := ⟨0, if p.hashed then some [] else none, [], none⟩

/-- The transfer in the course of some actions. -/
def Sending.run (p : Sending) (sink : Sink) (actions : List Action) : Transfer :=
  Runs.run (Transfer.step p sink) p.start actions

/-- All the loops have ended. -/
def Transfer.Over (t : Transfer) : Prop :=
  t.pumping.ended.isSome ∧ t.gone ∧ t.task.returned

/-! ## Nothing goes on for ever -/

def Frame.work (f : Frame) : Nat := 4 * f.bytes.length + 1

def Piece.work : Piece → Nat
  | .ok bytes => 2 * bytes.length + 1
  | .failed => 1

def Task.work (task : Task) : Nat :=
  if task.returned then 0 else (task.frames.map Frame.work).sum + 4 * task.data.length + 2

def Pumping.work (q : Pumping) : Nat := if q.ended.isSome then 0 else 1

namespace Transfer

/-- How many steps there can be at most. -/
def work (t : Transfer) : Nat :=
  t.task.work + (t.channel.map Piece.work).sum + t.current.length + t.pumping.work +
    if t.gone then 0 else 1

variable {p : Sending} {sink : Sink} {t : Transfer}

/-- The task has to wait if it sends now. -/
def Full (t : Transfer) : Prop := t.gone = false ∧ depth ≤ t.channel.length

theorem send_work {piece : Piece} {sent : Task}
    (hless : piece.work + sent.work < t.task.work) :
    (t.send piece sent).work < t.work ∨ t.send piece sent = t ∧ t.Full := by
  unfold send
  split_ifs with hgone hroom
  · refine .inl ?_
    have htask : 0 < t.task.work := by omega
    simp only [work, Task.work, if_true] at htask ⊢
    omega
  · refine .inl ?_
    simp only [work, List.map_append, List.sum_append, List.map_singleton, List.sum_singleton]
    omega
  · exact .inr ⟨rfl, Bool.eq_false_of_not_eq_true hgone, Nat.le_of_not_lt hroom⟩

/-- The task has less to do with every step, unless it waits. -/
theorem stepTask_work (hreturned : t.task.returned = false) :
    (t.stepTask p).work < t.work ∨ t.stepTask p = t ∧ t.Full := by
  obtain ⟨⟨frames, data, returned⟩, channel, current, gone, pumping⟩ := t
  cases hreturned
  cases data with
  | cons b bs =>
    refine send_work ?_
    have htake : ((b :: bs).take pieceSize).length + ((b :: bs).drop pieceSize).length =
        (b :: bs).length := by rw [← List.length_append, List.take_append_drop]
    have hpos : 0 < ((b :: bs).take pieceSize).length := by
      rw [List.length_take, List.length_cons, pieceSize]
      omega
    simp only [Piece.work, Task.work, Bool.false_eq_true, if_false]
    omega
  | nil =>
    rcases frames with _ | ⟨bytes | _, frames⟩
    · unfold stepTask
      rw [if_neg Bool.false_ne_true]
      dsimp only
      split_ifs
      · exact send_work (by simp [Piece.work, Task.work])
      · exact .inl (by simp [work, Task.work])
    · refine .inl ?_
      simp [stepTask, work, Task.work, Frame.work, Frame.bytes]
      omega
    · refine .inl ?_
      simp [stepTask, work, Task.work, Frame.work, Frame.bytes]

theorem turn_work (q : Pumping) (announced : Nat) (read : Read) :
    (q.turn sink announced read).work ≤ 1 := by
  unfold Pumping.work
  split
  · exact Nat.zero_le 1
  · exact Nat.le_refl 1

/-- So has the reader, unless it waits for the task. -/
theorem stepRead_work (hended : t.pumping.ended = none) (size : ℕ+) :
    (t.stepRead p sink size).work < t.work ∨
      t.stepRead p sink size = t ∧ t.channel = [] ∧ t.task.returned = false := by
  obtain ⟨task, channel, current, gone, ⟨total, hasher, sunk, ended⟩⟩ := t
  cases hended
  have hsize := size.pos
  have hturn := @turn_work sink ⟨total, hasher, sunk, none⟩ p.announced
  cases current with
  | cons b bs =>
    refine .inl ?_
    have hpiece := hturn (.piece ((b :: bs).take size))
    simp only [stepRead, work, Option.isSome_none, Bool.false_eq_true, if_false,
      List.length_drop, List.length_cons] at hpiece ⊢
    simp only [Pumping.work, Option.isSome_none, Bool.false_eq_true, if_false] at hpiece ⊢
    omega
  | nil =>
    rcases channel with _ | ⟨bytes | _, channel⟩
    · cases hreturned : task.returned with
      | true =>
        refine .inl ?_
        simp [stepRead, hreturned, work, Pumping.turn, Pumping.work]
      | false => exact .inr ⟨by simp [stepRead, hreturned], rfl, rfl⟩
    · refine .inl ?_
      simp [stepRead, work, Piece.work]
      omega
    · refine .inl ?_
      simp [stepRead, work, Piece.work, Pumping.turn, Pumping.work]

theorem step_work (p : Sending) (sink : Sink) (t : Transfer) (a : Action) :
    t.step p sink a = t ∨ (t.step p sink a).work < t.work := by
  cases a with
  | task =>
    cases hreturned : t.task.returned with
    | true => exact .inl (if_pos hreturned)
    | false => exact (stepTask_work hreturned).elim .inr fun h => .inl h.1
  | read size =>
    cases hended : t.pumping.ended with
    | some e => exact .inl (if_pos (by rw [hended]; rfl))
    | none => exact (stepRead_work hended size).elim .inr fun h => .inl h.1
  | interrupted => exact .inl (ite_self t)
  | drop =>
    unfold step
    split_ifs
    · cases hgone : t.gone with
      | true =>
        refine .inl ?_
        rw [← hgone]
      | false => exact .inr (by simp [work, hgone])
    · exact .inl rfl

/-- Until all is over, one of the three goes on. -/
theorem moves_of_not_over (p : Sending) (sink : Sink) (h : ¬t.Over) :
    ∃ party, ∀ a, Action.party a = some party → t.step p sink a ≠ t := by
  have hne : ∀ {t' : Transfer}, t'.work < t.work → t' ≠ t := by
    rintro _ hless rfl
    exact Nat.lt_irrefl _ hless
  have htask : t.task.returned = false → ¬t.Full →
      ∃ party, ∀ a, Action.party a = some party → t.step p sink a ≠ t := by
    refine fun hreturned hfull => ⟨.task, fun a ha => ?_⟩
    cases a with
    | task => exact hne ((stepTask_work hreturned).resolve_right fun h => hfull h.2)
    | read size => cases ha
    | interrupted => cases ha
    | drop => cases ha
  cases hended : t.pumping.ended with
  | some e =>
    cases hgone : t.gone with
    | true =>
      refine htask ?_ fun hfull => by simp [Full, hgone] at hfull
      by_contra hreturned
      exact h ⟨by rw [hended]; rfl, hgone, Bool.eq_true_of_not_eq_false hreturned⟩
    | false =>
      refine ⟨.owner, fun a ha => ?_⟩
      cases a with
      | drop => exact hne (by simp [step, hended, work, hgone])
      | task => cases ha
      | read size => cases ha
      | interrupted => cases ha
  | none =>
    by_cases hwaits : t.channel = [] ∧ t.task.returned = false
    · exact htask hwaits.2 fun hfull => by simp [Full, hwaits.1, depth] at hfull
    · refine ⟨.reader, fun a ha => ?_⟩
      cases a with
      | read size => exact hne ((stepRead_work hended size).resolve_right fun h => hwaits h.2)
      | task => cases ha
      | interrupted => cases ha
      | drop => cases ha

end Transfer

/-- **The loops end**, in every order of the steps in which nobody waits for ever to be
scheduled: whatever the sink says, the sizes of the reads and the interruptions are. -/
theorem over_of_fair (p : Sending) (sink : Sink) {schedule : Nat → Action}
    (hfair : Runs.Fair Action.party schedule) :
    ∃ n, (p.run sink (Runs.upTo schedule n)).Over :=
  @Runs.ends_of_fair Transfer Action (Transfer.step p sink) Party Action.party (fun _ => True)
    Transfer.Over Transfer.work (fun _ _ h => h) (Transfer.step_work p sink)
    (fun _ _ h => Transfer.moves_of_not_over p sink h) p.start trivial schedule hfair

/-! ## What the sink gets -/

/-- What is to be answered, whatever the frames and the reads are. -/
def answerTo (content : Bytes) (announced : Nat) (fails : Bool) : Except ApiError Nat :=
  if announced < content.length then .error .contentMismatch
  else if fails then .error unread
  else .ok content.length

/-- `total` does not overflow: the ledger keeps no size from 2^63 on, and nobody has 2^64
bytes to send. -/
def Sending.Counts (p : Sending) : Prop :=
  p.announced < 2 ^ 63 ∨ p.content.length < 2 ^ 64

/-- The end of a transfer whose sink takes all. -/
structure Settled (p : Sending) (q : Pumping) : Prop where
  ended : q.ended = some (.answered (answerTo p.content p.announced p.fails))
  sunk_prefix : q.sunk.flatten <+: p.content
  sunk_le : q.sunk.flatten.length ≤ p.announced
  sunk_all : p.content.length ≤ p.announced → q.sunk.flatten = p.content
  hasher : q.hasher = if p.hashed then some q.sunk.flatten else none

/-- What the reader has not got yet: the pieces in the channel, with the failure behind them
if it was sent, and what the task has. -/
structure Ahead (p : Sending) (t : Transfer) (pieces : List Bytes) : Prop where
  channel : t.channel = pieces.map .ok ++ if t.task.returned && p.fails then [.failed] else []
  short : ∀ piece ∈ pieces, piece.length ≤ pieceSize
  returned : t.task.returned = true → t.task.data = [] ∧ t.task.frames = []

/-- A transfer before its end. -/
structure Open (p : Sending) (t : Transfer) : Prop where
  ended : t.pumping.ended = none
  here : t.gone = false
  total : t.pumping.total = t.pumping.sunk.flatten.length
  within : t.pumping.total ≤ p.announced
  hasher : t.pumping.hasher = if p.hashed then some t.pumping.sunk.flatten else none
  short : t.current.length ≤ pieceSize
  ahead : ∃ pieces, Ahead p t pieces ∧
    t.pumping.sunk.flatten ++ (t.current ++ (pieces.flatten ++
      (t.task.data ++ t.task.frames.flatMap Frame.bytes))) = p.content

namespace Open

variable {p : Sending} {sink : Sink} {t : Transfer}

theorem start (p : Sending) : Open p p.start where
  ended := rfl
  here := rfl
  total := rfl
  within := Nat.zero_le _
  hasher := rfl
  short := Nat.zero_le _
  ahead := ⟨[], ⟨rfl, fun _ h => absurd h List.not_mem_nil, fun h => by cases h⟩, rfl⟩

/-- A piece that is cut off is the next one behind those in the channel. -/
theorem task (h : Open p t) : Open p (t.stepTask p) := by
  obtain ⟨⟨frames, data, returned⟩, channel, current, gone, pumping⟩ := t
  obtain ⟨hended, hhere, htotal, hwithin, hhasher, hshort, pieces, hahead, hcontent⟩ := h
  cases hhere
  cases returned with
  | true => exact ⟨hended, rfl, htotal, hwithin, hhasher, hshort, pieces, hahead, hcontent⟩
  | false =>
    have hchannel : channel = pieces.map .ok := by simpa using hahead.channel
    have hwaits := fun frames data hcontent => (⟨hended, rfl, htotal, hwithin, hhasher, hshort,
      pieces, ⟨hahead.channel, hahead.short, fun h => by cases h⟩, hcontent⟩ :
      Open p ⟨⟨frames, data, false⟩, channel, current, false, pumping⟩)
    cases data with
    | cons b bs =>
      unfold Transfer.stepTask Transfer.send
      simp only [Bool.false_eq_true, if_false]
      split_ifs with hroom
      · refine ⟨hended, rfl, htotal, hwithin, hhasher, hshort,
          pieces ++ [(b :: bs).take pieceSize], ⟨?_, ?_, fun h => by cases h⟩, ?_⟩
        · simp [hchannel]
        · intro piece hpiece
          rcases List.mem_append.mp hpiece with hpiece | hpiece
          · exact hahead.short piece hpiece
          · rw [List.mem_singleton.mp hpiece]
            exact List.length_take_le _ _
        · rw [← hcontent]
          simp only [List.flatten_append, List.flatten_singleton, List.append_assoc]
          rw [← List.append_assoc ((b :: bs).take pieceSize), List.take_append_drop]
      · exact hwaits _ _ hcontent
    | nil =>
      rcases frames with _ | ⟨bytes | _, frames⟩
      · unfold Transfer.stepTask Transfer.send
        simp only [Bool.false_eq_true, if_false]
        split_ifs with hfails hroom
        · refine ⟨hended, rfl, htotal, hwithin, hhasher, hshort, pieces,
            ⟨?_, hahead.short, fun _ => ⟨rfl, rfl⟩⟩, hcontent⟩
          simp [hchannel, hfails]
        · exact hwaits _ _ hcontent
        · refine ⟨hended, rfl, htotal, hwithin, hhasher, hshort, pieces,
            ⟨?_, hahead.short, fun _ => ⟨rfl, rfl⟩⟩, hcontent⟩
          simp [hchannel, hfails]
      · exact hwaits _ _ hcontent
      · exact hwaits _ _ hcontent

/-- What the sink was handed before the end is a prefix that is not too long. -/
theorem settled (h : Open p t) {q : Pumping}
    (hended : q.ended = some (.answered (answerTo p.content p.announced p.fails)))
    (hsunk : q.sunk = t.pumping.sunk) (hhasher : q.hasher = t.pumping.hasher)
    (hall : p.content.length ≤ p.announced → t.pumping.sunk.flatten = p.content) :
    Settled p q where
  ended := hended
  sunk_prefix := by
    obtain ⟨pieces, -, hcontent⟩ := h.ahead
    rw [hsunk, ← hcontent]
    exact List.prefix_append _ _
  sunk_le := by
    rw [hsunk, ← h.total]
    exact h.within
  sunk_all := by
    rw [hsunk]
    exact hall
  hasher := by rw [hhasher, hsunk, h.hasher]

/-- A turn with bytes that were ahead. -/
theorem turn {b : UInt8} {bytes : Bytes} (hcounts : p.Counts) (htakes : sink.TakesAll)
    (h : Open p t) (hshort : (b :: bytes).length ≤ pieceSize)
    (hnext : t.pumping.sunk.flatten ++ (b :: bytes) <+: p.content) :
    let q := t.pumping.turn sink p.announced (.piece (b :: bytes))
    Settled p q ∨ q.ended = none ∧ q.sunk = t.pumping.sunk ++ [b :: bytes] ∧
      q.total = q.sunk.flatten.length ∧ q.total ≤ p.announced ∧
      q.hasher = if p.hashed then some q.sunk.flatten else none := by
  have hlength := hnext.length_le
  rw [List.length_append, ← h.total] at hlength
  have hwithin := h.within
  have hover : ¬u64Bound ≤ t.pumping.total + (b :: bytes).length := by
    unfold pieceSize at hshort
    unfold u64Bound
    rcases hcounts with hcounts | hcounts
    · omega
    · omega
  unfold Pumping.turn
  simp only [reduceCtorEq, if_false, if_neg hover, htakes t.pumping.sunk (b :: bytes)]
  by_cases hlong : p.announced < t.pumping.total + (b :: bytes).length
  · rw [if_pos hlong]
    refine .inl (h.settled ?_ rfl rfl fun hle => absurd hle (by omega))
    rw [answerTo, if_pos (by omega)]
  · rw [if_neg hlong]
    refine .inr ⟨h.ended, rfl, ?_, Nat.le_of_not_lt hlong, ?_⟩
    · dsimp only
      rw [h.total, List.flatten_append, List.flatten_singleton, List.length_append]
    · dsimp only
      rw [h.hasher, List.flatten_append, List.flatten_singleton]
      exact apply_ite (Option.map (· ++ (b :: bytes))) _ _ _

/-- What a read takes from the front of what is ahead goes to the sink. -/
theorem read (hcounts : p.Counts) (htakes : sink.TakesAll) (h : Open p t) (size : ℕ+) :
    Open p (t.stepRead p sink size) ∨ Settled p (t.stepRead p sink size).pumping := by
  have hopen := h
  obtain ⟨task, channel, current, gone, pumping⟩ := t
  obtain ⟨hended, hhere, htotal, hwithin, hhasher, hshort, pieces, hahead, hcontent⟩ := h
  have hchannel := hahead.channel
  dsimp only at hended hhere htotal hwithin hhasher hshort hcontent hchannel
  unfold Transfer.stepRead
  rw [if_neg (by simp [hended])]
  cases current with
  | cons b bs =>
    -- some of a piece is left: `pump` reads on in it
    obtain ⟨n, hn⟩ : ∃ n, (size : Nat) = n + 1 := Nat.exists_eq_succ_of_ne_zero size.ne_zero
    have htake : (b :: bs).take size = b :: bs.take n := by rw [hn]; rfl
    have hsplit : b :: bs.take n ++ (b :: bs).drop size = b :: bs := by
      rw [← htake, List.take_append_drop]
    have hnext : pumping.sunk.flatten ++ (b :: bs.take n) <+: p.content := by
      rw [← hcontent, ← hsplit, List.append_assoc, ← List.append_assoc]
      exact List.prefix_append _ _
    have hbytes : (b :: bs.take n).length ≤ pieceSize := by
      rw [← htake]
      exact (List.length_take_le' _ _).trans hshort
    dsimp only
    rw [htake]
    rcases hopen.turn hcounts htakes hbytes hnext with hsettled | ⟨hended', hsunk, hrest⟩
    · exact .inr hsettled
    · refine .inl ⟨hended', hhere, hrest.1, hrest.2.1, hrest.2.2, ?_, pieces,
        ⟨hchannel, hahead.short, hahead.returned⟩, ?_⟩
      · exact (List.length_drop ▸ Nat.sub_le _ _).trans hshort
      · dsimp only at hsunk ⊢
        rw [hsunk, ← hcontent, ← List.append_assoc (pumping.sunk ++ [b :: bs.take n]).flatten,
          List.flatten_append, List.flatten_singleton, List.append_assoc pumping.sunk.flatten,
          hsplit, List.append_assoc]
  | nil =>
    cases pieces with
    | cons piece pieces =>
      -- the next piece comes out of the channel
      have hcons : channel = .ok piece :: (pieces.map .ok ++
          if task.returned && p.fails then [.failed] else []) := hchannel
      rw [hcons]
      refine .inl ⟨hended, hhere, htotal, hwithin, hhasher, ?_, pieces, ⟨rfl, ?_, ?_⟩, ?_⟩
      · exact hahead.short piece List.mem_cons_self
      · exact fun piece hpiece => hahead.short piece (List.mem_cons_of_mem _ hpiece)
      · exact hahead.returned
      · rw [← hcontent]
        simp
    | nil =>
      cases hreturned : task.returned with
      | false =>
        -- nothing has been sent yet: the read waits
        have hnil : channel = [] := by simpa [hreturned] using hchannel
        rw [hnil]
        refine .inl ?_
        simp only [Bool.false_eq_true, if_false]
        exact hnil ▸ hopen
      | true =>
        -- the task has returned, and nothing is ahead
        obtain ⟨hdata, hframes⟩ := hahead.returned hreturned
        dsimp only at hdata hframes
        have hall : pumping.sunk.flatten = p.content := by
          rw [← hcontent, hdata, hframes]
          simp
        have hle : ¬p.announced < p.content.length := by
          rw [← hall, ← htotal]
          exact Nat.not_lt.mpr hwithin
        cases hfails : p.fails with
        | true =>
          have hfailed : channel = [.failed] := by simpa [hreturned, hfails] using hchannel
          rw [hfailed]
          refine .inr (hopen.settled ?_ rfl rfl fun _ => hall)
          rw [answerTo, if_neg hle, if_pos hfails]
          rfl
        | false =>
          have hnil : channel = [] := by simpa [hreturned, hfails] using hchannel
          rw [hnil]
          simp only [if_true]
          refine .inr (hopen.settled ?_ rfl rfl fun _ => hall)
          rw [answerTo, if_neg hle, hfails, if_neg Bool.false_ne_true, ← hall, ← htotal]
          rfl

end Open

theorem stepTask_pumping (p : Sending) (t : Transfer) : (t.stepTask p).pumping = t.pumping := by
  have hsend : ∀ piece sent, (t.send piece sent).pumping = t.pumping := by
    intro piece sent
    unfold Transfer.send
    split_ifs <;> rfl
  unfold Transfer.stepTask
  by_cases hreturned : t.task.returned = true
  · rw [if_pos hreturned]
  rw [if_neg hreturned]
  split
  · exact hsend _ _
  · rfl
  · rfl
  · rw [apply_ite Transfer.pumping, hsend, ite_self]

/-- Once `pump` has ended, nothing changes what it did. -/
theorem step_ended {p : Sending} {sink : Sink} {t : Transfer} (h : t.pumping.ended.isSome)
    (a : Action) : (t.step p sink a).pumping = t.pumping := by
  cases a with
  | task => exact stepTask_pumping p t
  | read size => exact congrArg Transfer.pumping (if_pos h)
  | interrupted => exact congrArg Transfer.pumping (if_pos h)
  | drop =>
    show (if t.pumping.ended.isSome then _ else t).pumping = _
    rw [apply_ite Transfer.pumping, ite_self]

/-- A step keeps what the sink has and what is ahead together. -/
theorem step_kept {p : Sending} {sink : Sink} (hcounts : p.Counts) (htakes : sink.TakesAll)
    (t : Transfer) (a : Action) (h : Open p t ∨ Settled p t.pumping) :
    Open p (t.step p sink a) ∨ Settled p (t.step p sink a).pumping := by
  rcases h with hopen | hsettled
  · have hrunning : ¬t.pumping.ended.isSome = true := by simp [hopen.ended]
    cases a with
    | task => exact .inl hopen.task
    | read size => exact hopen.read hcounts htakes size
    | interrupted =>
      show Open p (if t.pumping.ended.isSome then t else _) ∨ _
      rw [if_neg hrunning]
      exact .inl hopen
    | drop =>
      show Open p (if t.pumping.ended.isSome then _ else t) ∨ _
      rw [if_neg hrunning]
      exact .inl hopen
  · rw [step_ended (by rw [hsettled.ended]; rfl)]
    exact .inr hsettled

theorem run_kept {p : Sending} {sink : Sink} (hcounts : p.Counts) (htakes : sink.TakesAll)
    (actions : List Action) :
    Open p (p.run sink actions) ∨ Settled p (p.run sink actions).pumping :=
  @Runs.always Transfer Action (Transfer.step p sink)
    (fun t => Open p t ∨ Settled p t.pumping) (step_kept hcounts htakes) p.start
    (.inl (Open.start p)) actions

/-- **Content does not depend on how it is cut.** In every run that ends, `pump` answers and
hands to the sink what `Settled` says, which is about the content alone; and under every
fair schedule the run ends. -/
theorem content_uncut (p : Sending) (sink : Sink) (hcounts : p.Counts) (htakes : sink.TakesAll) :
    (∀ actions, (p.run sink actions).pumping.ended.isSome →
      Settled p (p.run sink actions).pumping) ∧
      ∀ schedule, Runs.Fair Action.party schedule →
        ∃ n, (p.run sink (Runs.upTo schedule n)).Over := by
  refine ⟨fun actions hended => ?_, fun schedule => over_of_fair p sink⟩
  rcases run_kept hcounts htakes actions with hopen | hsettled
  · rw [hopen.ended] at hended
    cases hended
  · exact hsettled

/-- Three bytes in three frames, of which one is empty, and trailers. -/
def threeBytes : Sending := ⟨[.data [1, 2], .data [], .trailers, .data [3]], false, 3, true⟩

def takesAll : Sink := fun _ _ => .ok ()

/-- One party after the other, with reads of two bytes. -/
def roundRobin (n : Nat) : Action :=
  match n % 3 with
  | 0 => .task
  | 1 => .read 2
  | _ => .drop

theorem fair_roundRobin : Runs.Fair Action.party roundRobin := by
  intro party n
  cases party with
  | task => exact ⟨3 * n, by omega, by simp [roundRobin, Action.party]⟩
  | reader => exact ⟨3 * n + 1, by omega, by simp [roundRobin, Nat.add_mod, Action.party]⟩
  | owner => exact ⟨3 * n + 2, by omega, by simp [roundRobin, Nat.add_mod, Action.party]⟩

/-- Three bytes come to the shelf, and in turns they do so in the end. -/
theorem content_uncut_threeBytes :
    (∀ actions, (threeBytes.run takesAll actions).pumping.ended.isSome →
      Settled threeBytes (threeBytes.run takesAll actions).pumping) ∧
      (∀ schedule, Runs.Fair Action.party schedule →
        ∃ n, (threeBytes.run takesAll (Runs.upTo schedule n)).Over) ∧
      ∃ n, (threeBytes.run takesAll (Runs.upTo roundRobin n)).Over :=
  have huncut := content_uncut threeBytes takesAll (.inl (by decide)) fun _ _ => rfl
  ⟨huncut.1, huncut.2, huncut.2 roundRobin fair_roundRobin⟩

example : (threeBytes.run takesAll [.read 2, .task, .task, .read 2, .read 1, .interrupted, .task,
    .task, .task, .task, .task, .read 5, .read 5, .read 5, .read 5]).pumping.sunk =
    [[1], [2], [3]] := by decide

/-! ## The shelf's reads -/

/-- What a step gives `pump` to read. -/
def Transfer.gave (t : Transfer) : Action → Source
  | .task | .drop => []
  | .interrupted => if t.pumping.ended.isSome then [] else [.interrupted]
  | .read size =>
    if t.pumping.ended.isSome then []
    else
      match t.current, t.channel with
      | b :: bs, _ => [.piece ((b :: bs).take size)]
      | [], .ok _ :: _ => []
      | [], .failed :: _ => [.failed]
      | [], [] => if t.task.returned then [.piece []] else []

/-- All that `pump` reads in a run, as the stream that a shelf is given. -/
def Sending.reads (p : Sending) (sink : Sink) (actions : List Action) : Source :=
  Runs.history (Transfer.step p sink) Transfer.gave p.start actions

section Reads

variable {p : Sending} {sink : Sink} {t : Transfer}

/-- A step is a turn of `pump` for what it gives, or none. -/
theorem step_gave (p : Sending) (sink : Sink) (t : Transfer) (a : Action) :
    t.gave a = [] ∧ (t.step p sink a).pumping = t.pumping ∨
      ∃ read, t.gave a = [read] ∧
        (t.step p sink a).pumping = t.pumping.turn sink p.announced read := by
  cases a with
  | task => exact .inl ⟨rfl, stepTask_pumping p t⟩
  | drop =>
    refine .inl ⟨rfl, ?_⟩
    show (if t.pumping.ended.isSome then _ else t).pumping = _
    rw [apply_ite Transfer.pumping, ite_self]
  | interrupted =>
    unfold Transfer.gave Transfer.step
    dsimp only
    split_ifs
    · exact .inl ⟨rfl, rfl⟩
    · exact .inr ⟨.interrupted, rfl, rfl⟩
  | read size =>
    show Transfer.gave t (.read size) = [] ∧ (t.stepRead p sink size).pumping = _ ∨ ∃ read, _ ∧
      (t.stepRead p sink size).pumping = _
    unfold Transfer.gave Transfer.stepRead
    dsimp only
    by_cases hended : t.pumping.ended.isSome = true
    · rw [if_pos hended, if_pos hended]
      exact .inl ⟨rfl, rfl⟩
    rw [if_neg hended, if_neg hended]
    split
    · exact .inr ⟨_, rfl, rfl⟩
    · exact .inl ⟨rfl, rfl⟩
    · exact .inr ⟨_, rfl, rfl⟩
    · cases t.task.returned with
      | true => exact .inr ⟨_, rfl, rfl⟩
      | false => exact .inl ⟨rfl, rfl⟩

theorem run_ended (h : t.pumping.ended.isSome) (actions : List Action) :
    (Runs.run (Transfer.step p sink) t actions).pumping = t.pumping :=
  @Runs.always Transfer Action (Transfer.step p sink) (fun t' => t'.pumping = t.pumping)
    (fun _ a hsame => (step_ended (hsame ▸ h) a).trans hsame) t rfl actions

/-- From any state on, `pump` does with what it reads what the run does. -/
theorem pump_history (htakes : sink.TakesAll) {answer : Except ApiError Nat}
    {actions : List Action} (hrunning : t.pumping.ended = none)
    (h : (Runs.run (Transfer.step p sink) t actions).pumping.ended = some (.answered answer)) :
    ∃ pieces, (Runs.run (Transfer.step p sink) t actions).pumping.sunk =
        t.pumping.sunk ++ pieces ∧
      pump p.announced (Runs.history (Transfer.step p sink) Transfer.gave t actions)
        t.pumping.total = (answer, pieces) := by
  induction actions generalizing t with
  | nil =>
    rw [Runs.run_nil, hrunning] at h
    cases h
  | cons a actions ih =>
    rw [Runs.run_cons] at h ⊢
    show ∃ pieces, _ ∧ pump _ (t.gave a ++ _) _ = _
    -- a step that gives `pump` nothing to read leaves it as it was
    rcases step_gave p sink t a with ⟨hgave, hsame⟩ | ⟨read, hgave, hturn⟩
    · obtain ⟨pieces, hsunk, hpump⟩ := ih (hsame ▸ hrunning) h
      rw [hsame] at hsunk hpump
      rw [hgave]
      exact ⟨pieces, hsunk, hpump⟩
    rw [hgave]
    -- a turn that ends `pump` fixes its answer for the rest of the run
    have hends : ∀ ended, (t.step p sink a).pumping.ended = some ended →
        ended = .answered answer ∧
          (Runs.run (Transfer.step p sink) (t.step p sink a) actions).pumping =
            (t.step p sink a).pumping := by
      intro ended hended
      have hsame := @run_ended p sink (t.step p sink a) (by rw [hended]; rfl) actions
      rw [hsame, hended] at h
      exact ⟨Option.some.inj h, hsame⟩
    cases read with
    | interrupted =>
      obtain ⟨pieces, hsunk, hpump⟩ := ih (hturn ▸ hrunning) h
      rw [hturn] at hsunk hpump
      exact ⟨pieces, hsunk, hpump⟩
    | failed =>
      obtain ⟨heq, hsame⟩ := hends _ (congrArg Pumping.ended hturn)
      cases heq
      exact ⟨[], by rw [hsame, hturn, List.append_nil]; rfl, rfl⟩
    | piece bytes =>
      -- a piece: the end, an overflow, more than was announced, or sunk
      unfold Pumping.turn at hturn
      unfold pump
      dsimp only [List.cons_append] at hturn ⊢
      by_cases hnil : bytes = []
      · rw [if_pos hnil] at hturn
        obtain ⟨heq, hsame⟩ := hends _ (congrArg Pumping.ended hturn)
        cases heq
        rw [if_pos hnil]
        exact ⟨[], by rw [hsame, hturn, List.append_nil], rfl⟩
      rw [if_neg hnil] at hturn ⊢
      by_cases hover : u64Bound ≤ t.pumping.total + bytes.length
      · rw [if_pos hover] at hturn
        obtain ⟨heq, -⟩ := hends _ (congrArg Pumping.ended hturn)
        cases heq
      rw [if_neg hover] at hturn
      by_cases hlong : p.announced < t.pumping.total + bytes.length
      · rw [if_pos hlong] at hturn
        obtain ⟨heq, hsame⟩ := hends _ (congrArg Pumping.ended hturn)
        cases heq
        rw [if_pos hlong]
        exact ⟨[], by rw [hsame, hturn, List.append_nil], rfl⟩
      rw [if_neg hlong, htakes t.pumping.sunk bytes] at hturn
      rw [if_neg hlong]
      dsimp only at hturn
      obtain ⟨pieces, hsunk, hpump⟩ := ih (hturn ▸ hrunning) h
      rw [hturn] at hsunk hpump
      refine ⟨bytes :: pieces, by rw [hsunk, List.append_assoc]; rfl, ?_⟩
      dsimp only [List.nil_append]
      rw [hpump]

/-- **What `pump` does in a run is what it makes of the reads.** -/
theorem pump_reads (htakes : sink.TakesAll) {answer : Except ApiError Nat}
    {actions : List Action}
    (h : (p.run sink actions).pumping.ended = some (.answered answer)) :
    pump p.announced (p.reads sink actions) 0 =
      (answer, (p.run sink actions).pumping.sunk) := by
  obtain ⟨pieces, hsunk, hpump⟩ := @pump_history p sink p.start htakes answer actions rfl h
  exact hpump.trans (congrArg (Prod.mk answer) hsunk.symm)

/-- **The staging place holds the content, or is empty.** -/
theorem write_reads [Crates] (hcounts : p.Counts) (htakes : sink.TakesAll)
    {actions : List Action} (hended : (p.run sink actions).pumping.ended.isSome)
    {s : MemoryShelf} {upload : UploadId} (hstaged : s.staging.contains upload) :
    s.write upload (p.reads sink actions) p.announced p.hashed =
      (answerTo p.content p.announced p.fails, { s with
        staging := s.staging.insert upload
          (if (answerTo p.content p.announced p.fails).isOk then
            ⟨p.content, if p.hashed then some (Crates.sha256 p.content) else none⟩
          else ⟨[], none⟩) }) := by
  have hsettled : Settled p (p.run sink actions).pumping :=
    (run_kept hcounts htakes actions).resolve_left fun hopen => by
      rw [hopen.ended] at hended
      cases hended
  unfold MemoryShelf.write
  rw [if_pos hstaged, pump_reads htakes hsettled.ended]
  dsimp only
  cases hanswer : answerTo p.content p.announced p.fails with
  | error e => rfl
  | ok n =>
    have hle : p.content.length ≤ p.announced := by
      by_contra hlong
      rw [answerTo, if_pos (Nat.lt_of_not_le hlong)] at hanswer
      cases hanswer
    rw [hsettled.sunk_all hle]
    rfl

end Reads

end Bridge

end Passalong
