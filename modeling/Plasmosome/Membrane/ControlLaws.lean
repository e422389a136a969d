import Plasmosome.Foundation.Frames
import Plasmosome.Foundation.Rounds
import Plasmosome.Foundation.Runs
import Plasmosome.Membrane.Control
import Plasmosome.Membrane.HandshakeLaws

/-!
# What a conversation answers

The bytes a client sent are lines, and what is left of them. Each line that was taken
has one reply, in order, and a request for the status has one status before it. A
conversation ends where the client does, at a line that is too long, or in trouble.
-/

namespace Plasmosome.Membrane.Control

open Foundation
open Serde

/-! ## Events -/

/-- The bytes the client gave to one read. -/
def arrived : Event → List UInt8
  | ⟨.read, .ok bytes⟩ => bytes.1
  | _ => []

def received (events : List Event) : List UInt8 := events.flatMap arrived

/-- A status the brokers gave, or a line that was sent. -/
inductive Spoken where
  | status (status : SetStatus)
  | reply (bytes : List UInt8)

def said : Event → List Spoken
  | ⟨.status, .ok status⟩ => [.status status]
  | ⟨.write bytes, _⟩ => [.reply bytes]
  | _ => []

def spoken (events : List Event) : List Spoken := events.flatMap said

/-- One for each look at the shutdown flag. -/
def looks : Event → Nat
  | ⟨.shutdown, _⟩ => 1
  | _ => 0

/-- One for each read. -/
def reads : Event → Nat
  | ⟨.read, _⟩ => 1
  | _ => 0

@[simp] theorem received_nil : received [] = [] := rfl

@[simp] theorem received_cons (event : Event) (events : List Event) :
    received (event :: events) = arrived event ++ received events := rfl

@[simp] theorem received_append (first second : List Event) :
    received (first ++ second) = received first ++ received second :=
  List.flatMap_append

@[simp] theorem spoken_nil : spoken [] = [] := rfl

@[simp] theorem spoken_cons (event : Event) (events : List Event) :
    spoken (event :: events) = said event ++ spoken events := rfl

@[simp] theorem spoken_append (first second : List Event) :
    spoken (first ++ second) = spoken first ++ spoken second :=
  List.flatMap_append

/-- What ends a conversation before the client does. -/
def Troubled : Event → Prop
  | ⟨.setUp, whole⟩ => whole = false
  | ⟨.shutdown, seen⟩ => seen = true
  | ⟨.read, .error error⟩ => error.waiting = false
  | ⟨.status, .error _⟩ => True
  | ⟨.write _, whole⟩ => whole = false
  | ⟨.flush, whole⟩ => whole = false
  | _ => False

/-- Trouble ends a conversation: nothing is asked after it, but the flush of the reply that says a
line is too long when it was that reply that could not be written. -/
def EndsInTrouble {ε : Type} (library : Library) (outcome : Outcome ε Unit)
    (events : List Event) : Prop :=
  ∀ before event after, events = before ++ event :: after → Troubled event →
    outcome = .ok () ∧ (after = [] ∨ ∃ whole,
      event = ⟨.write (written library tooLong), false⟩ ∧ after = [⟨.flush, whole⟩])

/-! ## What a line is answered -/

structure Exchange where
  status : Option SetStatus
  reply : Value

section Answers

variable (library : Library)

def Exchange.spoken (exchange : Exchange) : List Spoken :=
  exchange.status.toList.map Spoken.status ++ [.reply (written library exchange.reply)]

/-- The document a line is, if it is one. -/
def envelopeOf (line : List UInt8) : Option Value :=
  match Utf8.decode line 0 with
  | .error _ => none
  | .ok text => library.fromStr (Utf8.encode text)

/-- The id a line carries, or null. -/
def lineId (line : List UInt8) : Value :=
  ((envelopeOf library line).bind fun envelope => member envelope "id").getD .null

/-- The line is an object that asks for the status, with an object of parameters. -/
def AsksStatus (line : List UInt8) : Prop :=
  ∃ fields params, envelopeOf library line = some (.object fields) ∧
    fields.lookup "method" = some (.string statusMethod) ∧
    fields.lookup "params" = some (.object params)

/-- What a line is answered: one line that carries its id, after one status if it asks for one. A
reply that is no status is an error. -/
structure Answered (line : List UInt8) (exchange : Exchange) : Prop where
  id : member exchange.reply "id" = some (lineId library line)
  oneLine : newline ∉ library.write exchange.reply
  asks : exchange.status.isSome ↔ AsksStatus library line
  result : ∀ status, exchange.status = some status →
    member exchange.reply "result" = some (wireStatus status)
  refusal : exchange.status = none → ∃ code message, member exchange.reply "error" =
    some (objectOf [("code", .number (.negInt code)), ("message", .string message)])

end Answers

variable {library : Library}

theorem member_objectOf_pair {key other : String} (hkeys : key ≠ other) (value held : Value) :
    member (objectOf [(key, value), (other, held)]) key = some value ∧
      member (objectOf [(key, value), (other, held)]) other = some held := by
  have hmember : ∀ wanted, member (objectOf [(key, value), (other, held)]) wanted =
      (insertMember other held (insertMember key value [])).lookup wanted := fun _ => rfl
  constructor
  · rw [hmember, lookup_insertMember, if_neg hkeys, lookup_insertMember, if_pos rfl]
  · rw [hmember, lookup_insertMember, if_pos rfl]

/-- A refusal answers a line that asks for no status. -/
theorem answered_failure {line : List UInt8} {code : Int64} {message : String}
    (hasks : ¬AsksStatus library line) :
    Answered library line ⟨none, failure (lineId library line) code message⟩ where
  id := (member_objectOf_pair (by decide) _ _).1
  oneLine := newline_not_mem_write _
  asks := ⟨nofun, fun hasked => (hasks hasked).elim⟩
  result := nofun
  refusal _ := ⟨code, message, (member_objectOf_pair (by decide) _ _).2⟩

/-- A request for the status is answered by a success that carries the id of its line. -/
theorem answered_success {line : List UInt8} (hasks : AsksStatus library line)
    (status : SetStatus) :
    Answered library line ⟨some status, success (lineId library line) status⟩ where
  id := (member_objectOf_pair (by decide) _ _).1
  oneLine := newline_not_mem_write _
  asks := ⟨fun _ => hasks, fun _ => rfl⟩
  result given hgiven := by
    cases hgiven
    exact (member_objectOf_pair (by decide) _ _).2
  refusal := nofun

/-- A line that is no document has no id, and asks for nothing. -/
theorem lineId_of_none {line : List UInt8} (henvelope : envelopeOf library line = none) :
    lineId library line = .null ∧ ¬AsksStatus library line := by
  constructor
  · rw [lineId, henvelope]
    rfl
  · rintro ⟨fields, params, hfields, -⟩
    cases henvelope.symm.trans hfields

/-- A line that is no UTF-8 is answered without an id. -/
theorem answered_notUtf8 {line : List UInt8} {offset : Nat}
    (hline : Utf8.decode line 0 = .error offset) : Answered library line ⟨none, notUtf8⟩ := by
  obtain ⟨hid, hasks⟩ := @lineId_of_none library line (by rw [envelopeOf, hline])
  have hanswered := @answered_failure library line parseError "request line is not UTF-8" hasks
  rwa [hid] at hanswered

/-- A judged line is refused with its id, or asks for the status. -/
theorem judgeLine_cases {line : List UInt8} {text : List Char}
    (hline : Utf8.decode line 0 = .ok text) :
    (∃ refusal, judgeLine library text = .error refusal ∧ Answered library line ⟨none, refusal⟩) ∨
      judgeLine library text = .ok (lineId library line) ∧ AsksStatus library line := by
  unfold judgeLine
  cases hvalue : library.fromStr (Utf8.encode text) with
  | none =>
      obtain ⟨hid, hasks⟩ := @lineId_of_none library line (by
        simp only [envelopeOf, hline, hvalue])
      refine .inl ⟨_, rfl, ?_⟩
      rw [← hid]
      exact answered_failure hasks
  | some envelope =>
      have henvelope : envelopeOf library line = some envelope := by
        simp only [envelopeOf, hline, hvalue]
      have hid : (member envelope "id").getD .null = lineId library line := by
        rw [lineId, henvelope]
        rfl
      simp only [hid]
      split
      next _ fields =>
        have hmethod : ∀ {code message}, (fields.lookup "method").bind Value.asStr ≠
            some statusMethod →
              Answered library line ⟨none, failure (lineId library line) code message⟩ := by
          intro code message hother
          refine answered_failure ?_
          rintro ⟨held, params, hheld, hmethod, -⟩
          cases henvelope.symm.trans hheld
          rw [hmethod] at hother
          exact hother rfl
        split
        next hnone => exact .inl ⟨_, rfl, hmethod (by rw [hnone]; nofun)⟩
        next method hsome =>
          split
          next params hparams =>
            split
            next hstatus =>
              refine .inr ⟨rfl, fields, params, henvelope, ?_, hparams⟩
              rw [hstatus] at hsome
              obtain ⟨value, hvalue, htext⟩ := Option.bind_eq_some_iff.mp hsome
              cases value <;> cases htext
              exact hvalue
            next hother =>
              refine .inl ⟨_, rfl, hmethod ?_⟩
              rw [hsome]
              exact fun hsame => hother (Option.some.inj hsame)
          next hparams =>
            refine .inl ⟨_, rfl, answered_failure ?_⟩
            rintro ⟨held, params, hheld, -, hsome⟩
            cases henvelope.symm.trans hheld
            exact hparams params hsome
      next _ hnone =>
        refine .inl ⟨_, rfl, answered_failure ?_⟩
        rintro ⟨fields, params, hfields, -⟩
        exact hnone fields (Option.some.inj (henvelope.symm.trans hfields))

/-! ## One request -/

section Requests

variable {ε α : Type}

/-- What is held is handed out again; a read gives bytes to hold, or fails. -/
theorem ensures_fillBuf_bind {held : List UInt8} {next : Except ReadError (List UInt8) → Step ε α}
    {post : Outcome ε α → List UInt8 → List Event → Prop}
    (hheld : held ≠ [] → (next (.ok held)).Ensures held post)
    (hread : held = [] → ∀ bytes, (next (.ok bytes.1)).Ensures bytes.1 fun outcome left more =>
      post outcome left (⟨.read, .ok bytes⟩ :: more))
    (hfailed : held = [] → ∀ error, (next (.error error)).Ensures [] fun outcome left more =>
      post outcome left (⟨.read, .error error⟩ :: more)) :
    (fillBuf.attempt >>= next).Ensures held post := by
  have hfill : fillBuf.Ensures held fun outcome left events =>
      held ≠ [] ∧ outcome = .ok held ∧ left = held ∧ events = [] ∨
      held = [] ∧ ((∃ bytes, outcome = .ok bytes.1 ∧ left = bytes.1 ∧
          events = [⟨.read, .ok bytes⟩]) ∨
        ∃ error, outcome = .stop (.error error) ∧ left = [] ∧
          events = [⟨.read, .error error⟩]) := by
    refine Program.ensures_get_bind ?_
    split
    next hempty =>
      have hnone := List.isEmpty_iff.mp hempty
      subst hnone
      refine Program.ensures_ask_bind fun answer => ?_
      match answer with
      | .ok bytes =>
          exact Program.ensures_set_bind
            (Program.ensures_pure (.inr ⟨rfl, .inl ⟨bytes, rfl, rfl, rfl⟩⟩))
      | .error error => exact Program.ensures_throw (.inr ⟨rfl, .inr ⟨error, rfl, rfl, rfl⟩⟩)
    next hsome =>
      exact Program.ensures_pure
        (.inl ⟨fun hempty => hsome (List.isEmpty_iff.mpr hempty), rfl, rfl, rfl⟩)
  refine Program.ensures_attempt_bind hfill ?_ ?_ ?_
  · rintro value left events (⟨hsome, hvalue, rfl, rfl⟩ | ⟨hnone, ⟨bytes, hvalue, rfl, rfl⟩ |
      ⟨error, hvalue, -⟩⟩)
    · cases hvalue
      exact hheld hsome
    · cases hvalue
      exact hread hnone bytes
    · cases hvalue
  · rintro error left events
      (⟨-, hvalue, -⟩ | ⟨hnone, ⟨bytes, hvalue, -⟩ | ⟨fault, hvalue, rfl, rfl⟩⟩)
    · cases hvalue
    · cases hvalue
    · cases hvalue
      exact hfailed hnone error
  · rintro left events
      (⟨-, hvalue, -⟩ | ⟨-, ⟨bytes, hvalue, -⟩ | ⟨fault, hvalue, -⟩⟩) <;> cases hvalue

/-- The client has sent all it will. -/
def Finished (events : List Event) : Prop :=
  ∃ before bytes, events = before ++ [⟨.read, .ok bytes⟩] ∧ bytes.1 = []

/-- What one request took of the bytes the client sent, `held` before and `left` after it. -/
inductive Took (held : List UInt8) : Outcome ε Request → List UInt8 → List Event → Prop where
  | line {line left : List UInt8} {events : List Event} (hline : newline ∉ line)
      (hshort : line.length ≤ maxRequestBytes)
      (hinput : held ++ received events = line ++ newline :: left) :
      Took held (.ok (requestOf line)) left events
  | tooLong {piece more left : List UInt8} {events : List Event} (hpiece : newline ∉ piece)
      (hlong : maxRequestBytes < piece.length) (hinput : held ++ received events = piece ++ more) :
      Took held (.ok .tooLong) left events
  | finished {left : List UInt8} {events : List Event} (hfinished : Finished events)
      (hpiece : newline ∉ held ++ received events)
      (hshort : (held ++ received events).length ≤ maxRequestBytes) :
      Took held (.ok .ended) left events
  | troubled {left : List UInt8} {events : List Event} {event : Event} (hmem : event ∈ events)
      (htroubled : Troubled event) : Took held (.ok .ended) left events
  | running {left : List UInt8} {events : List Event} : Took held (.stop .running) left events

/-- Nothing is said while a request is read, and the flag is looked at once for each read, but for
the bytes that were held and for the look that ends it. -/
structure Quiet (spare : Nat) (events : List Event) : Prop where
  silent : spoken events = []
  paced : Program.weigh looks events ≤ Program.weigh reads events + spare

theorem Quiet.append {spare more : Nat} {first second : List Event} (hfirst : Quiet spare first)
    (hsilent : spoken second = [])
    (hlooks : Program.weigh looks second + spare ≤ Program.weigh reads second + more) :
    Quiet more (first ++ second) where
  silent := by rw [spoken_append, hfirst.silent, hsilent, List.append_nil]
  paced := by
    have hpaced := hfirst.paced
    rw [Program.weigh_append, Program.weigh_append]
    omega

theorem Quiet.ended {events : List Event} (hquiet : Quiet 1 events) : Quiet 2 events :=
  ⟨hquiet.silent, hquiet.paced.trans (Nat.le_succ _)⟩

/-- What holds of a line before each round. The bytes held at the start are taken first, and after
that each round reads. -/
structure Taking (held line left : List UInt8) (events : List Event) : Prop where
  input : held ++ received events = line ++ left
  plain : newline ∉ line
  short : line.length ≤ maxRequestBytes
  quiet : Quiet 1 events
  first : left ≠ [] → Quiet 0 events

/-- What a round of reading a request comes to. -/
def Round (held : List UInt8) (outcome : Outcome ε (List UInt8 ⊕ Request)) (left : List UInt8)
    (events : List Event) : Prop :=
  match outcome with
  | .ok (.inl line) => Taking held line left events
  | .ok (.inr request) => Took (ε := ε) held (.ok request) left events ∧ Quiet 2 events
  | .stop stop => Took held (.stop stop) left events ∧ Quiet 2 events

/-- Bytes were got in a round, and are taken onto the line. -/
theorem ensures_takeAvailable {held line available : List UInt8} {events : List Event}
    (hquiet : Quiet 1 events) (hinput : held ++ received events = line ++ available)
    (hplain : newline ∉ line) :
    (takeAvailable line available : Step ε _).Ensures available fun outcome left more =>
      Round held outcome left (events ++ more) := by
  unfold takeAvailable
  have hended := hquiet.ended
  cases hposition : available.idxOf? newline with
  | some position =>
      obtain ⟨hbefore, hsplit, -⟩ := split_of_idxOf? hposition
      have hline : newline ∉ line ++ available.take position := by
        rw [List.mem_append, not_or]
        exact ⟨hplain, hbefore⟩
      have hwhole : held ++ received events =
          (line ++ available.take position) ++ newline :: available.drop (position + 1) := by
        rw [hinput, List.append_assoc, ← hsplit]
      refine Program.ensures_set_bind ?_
      split
      next hlong =>
        refine Program.ensures_pure ?_
        rw [List.append_nil]
        exact ⟨.tooLong hline hlong hwhole, hended⟩
      next hfits =>
        refine Program.ensures_pure ?_
        rw [List.append_nil]
        exact ⟨.line hline (Nat.le_of_not_lt hfits) hwhole, hended⟩
  | none =>
      have hline : newline ∉ line ++ available := by
        rw [List.mem_append, not_or]
        exact ⟨hplain, List.idxOf?_eq_none_iff.mp hposition⟩
      refine Program.ensures_set_bind ?_
      split
      next hlong =>
        refine Program.ensures_pure ?_
        rw [List.append_nil]
        exact ⟨.tooLong hline hlong (by rw [hinput, List.append_nil]), hended⟩
      next hfits =>
        refine Program.ensures_pure ?_
        rw [List.append_nil]
        exact ⟨by rw [hinput, List.append_nil], hline, Nat.le_of_not_lt hfits, hquiet,
          fun hsome => (hsome rfl).elim⟩

/-- A request is read up to its newline and no further; nothing is said meanwhile. -/
theorem ensures_readRequest (rounds : Nat) (held : List UInt8) :
    (readRequest rounds : Step ε _).Ensures held fun outcome left events =>
      Took held outcome left events ∧ Quiet 2 events := by
  refine Program.ensures_loop (Taking held) ?_ ?_ rounds
    ⟨by rw [received_nil, List.append_nil]; rfl, List.not_mem_nil, Nat.zero_le _,
      ⟨rfl, Nat.zero_le _⟩, fun _ => ⟨rfl, Nat.zero_le _⟩⟩
  · intro line left events htaking
    refine Program.ensures_ask_bind fun seen => ?_
    match seen with
    | true =>
        have hmem : (⟨.shutdown, true⟩ : Event) ∈ events ++ [⟨.shutdown, true⟩] :=
          List.mem_append_right _ (List.mem_singleton_self _)
        exact Program.ensures_pure ⟨.troubled hmem rfl, htaking.quiet.append rfl (by decide)⟩
    | false =>
        refine ensures_fillBuf_bind ?_ ?_ ?_
        · intro hsome
          -- only the first round finds bytes that were held
          have hlooked : Quiet 1 (events ++ [⟨.shutdown, false⟩]) :=
            (htaking.first hsome).append rfl (by decide)
          have hinput : held ++ received (events ++ [⟨.shutdown, false⟩]) = line ++ left := by
            rw [received_append, show received [⟨.shutdown, false⟩] = [] from rfl, List.append_nil]
            exact htaking.input
          have htook := @ensures_takeAvailable ε held line left _ hlooked hinput htaking.plain
          obtain ⟨first, others, rfl⟩ := List.exists_cons_of_ne_nil hsome
          refine htook.mono fun outcome later more hmore => ?_
          rw [List.append_assoc] at hmore
          rcases outcome with (_ | _) | _ <;> exact hmore
        · intro hnone bytes
          subst hnone
          have hread : Quiet 1 (events ++ [⟨.shutdown, false⟩, ⟨.read, .ok bytes⟩]) :=
            htaking.quiet.append rfl (Nat.le_refl 2)
          have hinput : held ++ received (events ++ [⟨.shutdown, false⟩, ⟨.read, .ok bytes⟩]) =
              line ++ bytes.1 := by
            have htaken := htaking.input
            rw [List.append_nil] at htaken
            simp [arrived, ← List.append_assoc, htaken]
          have htook := @ensures_takeAvailable ε held line bytes.1 _ hread hinput htaking.plain
          obtain ⟨bytes, hfits⟩ := bytes
          cases bytes with
          | nil =>
              refine Program.ensures_pure ⟨.finished ⟨events ++ [⟨.shutdown, false⟩], ⟨[], hfits⟩,
                ?_, rfl⟩ ?_ ?_, ?_⟩
              · simp
              · rw [hinput, List.append_nil]
                exact htaking.plain
              · rw [hinput, List.append_nil]
                exact htaking.short
              · exact hread.ended
          | cons first others =>
              refine htook.mono fun outcome later more hmore => ?_
              rw [List.append_assoc] at hmore
              rcases outcome with (_ | _) | _ <;> exact hmore
        · intro hnone error
          subst hnone
          have hread : Quiet 1 (events ++ [⟨.shutdown, false⟩, ⟨.read, .error error⟩]) :=
            htaking.quiet.append rfl (Nat.le_refl 2)
          have hinput : held ++ received (events ++ [⟨.shutdown, false⟩, ⟨.read, .error error⟩]) =
              line ++ [] := by
            simpa [arrived] using htaking.input
          change (if error.waiting then pure (.inl line) else pure (.inr .ended) :
            Step ε (List UInt8 ⊕ Request)).Ensures _ _
          split
          next hwaiting =>
              refine Program.ensures_pure ⟨hinput, htaking.plain, htaking.short, hread,
                fun hsome => (hsome rfl).elim⟩
          next hwaiting =>
              have hmem : (⟨.read, .error error⟩ : Event) ∈
                  events ++ [⟨.shutdown, false⟩, ⟨.read, .error error⟩] :=
                List.mem_append_right _ (List.mem_cons_of_mem _ (List.mem_singleton_self _))
              exact Program.ensures_pure
                ⟨.troubled hmem (Bool.eq_false_iff.mpr hwaiting), hread.ended⟩
  · intro line left events htaking
    exact ⟨.running, htaking.quiet.ended⟩

/-- Reading a request is only still running after as many looks as it was given rounds. -/
theorem looks_readRequest (rounds : Nat) (held : List UInt8) :
    (readRequest rounds : Step ε _).Ensures held fun outcome _ events =>
      outcome = .stop .running → rounds ≤ Program.weigh looks events := by
  refine Program.rounds_running (fun line left => ?_) (Nat.le_refl rounds) [] held
  have htake : ∀ held line available, (takeAvailable line available : Step ε _).Ensures held
      fun outcome _ _ => ∃ value, outcome = .ok value := by
    intro held line available
    unfold takeAvailable
    split <;> refine Program.ensures_set_bind ?_ <;> split <;> exact Program.ensures_pure ⟨_, rfl⟩
  refine Program.ensures_ask_bind fun seen => ?_
  match seen with
  | true => exact Program.ensures_pure trivial
  | false =>
      refine ensures_fillBuf_bind ?_ ?_ ?_
      · intro hsome
        obtain ⟨first, others, rfl⟩ := List.exists_cons_of_ne_nil hsome
        refine (htake _ _ _).mono fun outcome _ events hvalue => ?_
        obtain ⟨_ | _, rfl⟩ := hvalue
        · exact Nat.le_add_right 1 _
        · trivial
      · intro _ bytes
        obtain ⟨bytes, hfits⟩ := bytes
        cases bytes with
        | nil => exact Program.ensures_pure trivial
        | cons first others =>
            refine (htake _ _ _).mono fun outcome _ events hvalue => ?_
            obtain ⟨_ | _, rfl⟩ := hvalue
            · exact Nat.le_add_right 1 _
            · trivial
      · intro _ error
        change (if error.waiting then pure (Sum.inl line) else pure (Sum.inr .ended) :
          Step ε (List UInt8 ⊕ Request)).Ensures _ _
        split
        next => exact Program.ensures_pure (Nat.le_refl 1)
        next => exact Program.ensures_pure trivial

/-! ## One reply -/

/-- A reply that was sent, or was cut off by some trouble. -/
structure Delivered (library : Library) (reply : Value) (held : List UInt8)
    (outcome : Outcome ε (Unit ⊕ Unit)) (left : List UInt8) (events : List Event) : Prop where
  kept : left = held
  idle : received events = []
  paced : Program.weigh looks events ≤ Program.weigh reads events + 1
  part : spoken events <+: [.reply (written library reply)]
  whole : outcome = .ok (.inl ()) → spoken events = [.reply (written library reply)]
  cut : outcome = .ok (.inr ()) → ∃ event ∈ events, Troubled event
  total : ∃ next, outcome = .ok next

/-- A reply is written once and flushed. -/
theorem ensures_deliver (reply : Value) (held : List UInt8) :
    (deliver library reply : Step ε _).Ensures held fun outcome left events =>
      Delivered library reply held outcome left events := by
  refine Program.ensures_ask_bind fun seen => ?_
  match seen with
  | true =>
      exact Program.ensures_pure ⟨rfl, rfl, Nat.le_refl 1, List.nil_prefix, nofun,
        fun _ => ⟨_, List.mem_cons_self, rfl⟩, _, rfl⟩
  | false =>
      refine Program.ensures_ask_bind fun sent => ?_
      match sent with
      | false =>
          exact Program.ensures_pure ⟨rfl, rfl, Nat.le_refl 1, List.prefix_rfl, nofun,
            fun _ => ⟨_, List.mem_cons_of_mem _ List.mem_cons_self, rfl⟩, _, rfl⟩
      | true =>
          refine Program.ensures_ask_bind fun flushed => ?_
          match flushed with
          | false =>
              exact Program.ensures_pure ⟨rfl, rfl, Nat.le_refl 1, List.prefix_rfl, nofun,
                fun _ => ⟨_, List.mem_cons_of_mem _ (List.mem_cons_of_mem _ List.mem_cons_self),
                  rfl⟩, _, rfl⟩
          | true =>
              exact Program.ensures_pure ⟨rfl, rfl, Nat.le_refl 1, List.prefix_rfl,
                fun _ => rfl, nofun, _, rfl⟩

/-- How a conversation ends, by the bytes that were not answered and what was said of them. -/
inductive Closes (library : Library) (events : List Event) :
    List UInt8 → List Spoken → Prop where
  | finished {rest : List UInt8} (hfinished : Finished events) (hrest : newline ∉ rest)
      (hshort : rest.length ≤ maxRequestBytes) : Closes library events rest []
  | tooLong {piece more : List UInt8} (hpiece : newline ∉ piece)
      (hlong : maxRequestBytes < piece.length) :
      Closes library events (piece ++ more) [.reply (written library tooLong)]
  | silent {rest : List UInt8} {event : Event} (hmem : event ∈ events)
      (htroubled : Troubled event) : Closes library events rest []
  | cut {line more : List UInt8} {exchange : Exchange} {last : List Spoken} {event : Event}
      (hmem : event ∈ events) (htroubled : Troubled event) (hline : newline ∉ line)
      (hshort : line.length ≤ maxRequestBytes) (hanswered : Answered library line exchange)
      (hlast : last <+: exchange.spoken library) :
      Closes library events (line ++ newline :: more) last

/-- A conversation that closes still closes after more was said before. -/
theorem Closes.after {first second : List Event} {rest : List UInt8} {last : List Spoken}
    (hcloses : Closes library second rest last) : Closes library (first ++ second) rest last := by
  cases hcloses with
  | finished hfinished hrest hshort =>
      obtain ⟨before, bytes, rfl, hbytes⟩ := hfinished
      exact .finished ⟨first ++ before, bytes, (List.append_assoc ..).symm, hbytes⟩ hrest hshort
  | tooLong hpiece hlong => exact .tooLong hpiece hlong
  | silent hmem htroubled => exact .silent (List.mem_append_right _ hmem) htroubled
  | cut hmem htroubled hline hshort hanswered hlast =>
      exact .cut (List.mem_append_right _ hmem) htroubled hline hshort hanswered hlast

/-- What one request comes to: its line is answered and the conversation goes on, or it ends. -/
structure Served (library : Library) (held : List UInt8) (outcome : Outcome ε (Unit ⊕ Unit))
    (left : List UInt8) (events : List Event) : Prop where
  goesOn : outcome = .ok (.inl ()) → ∃ line exchange, newline ∉ line ∧
    line.length ≤ maxRequestBytes ∧ held ++ received events = line ++ newline :: left ∧
    Answered library line exchange ∧ spoken events = exchange.spoken library
  ends : outcome = .ok (.inr ()) →
    Closes library events (held ++ received events) (spoken events)
  running : outcome = .stop .running → spoken events = []
  harmless : ∀ error, outcome ≠ .stop (.error error)
  paced : Program.weigh looks events ≤ Program.weigh reads events + 3

/-- One turn reads a request and answers it, or ends the conversation. -/
theorem ensures_turn (rounds : Nat) (held : List UInt8) :
    (turn library rounds : Step ε _).Ensures held fun outcome left events =>
      Served library held outcome left events := by
  -- a reply after a request, and what was said between them
  have hreply : ∀ {line left : List UInt8} {first : List Event} {status : Option SetStatus}
      {reply : Value} (asked : List Event), newline ∉ line → line.length ≤ maxRequestBytes →
      held ++ received first = line ++ newline :: left → Quiet 2 first →
      Answered library line ⟨status, reply⟩ → received asked = [] →
      spoken asked = status.toList.map Spoken.status → Program.weigh looks asked = 0 →
        (deliver library reply : Step ε _).Ensures left fun outcome later more =>
          Served library held outcome later (first ++ (asked ++ more)) := by
    intro line left first status reply asked hline hshort hinput hquiet hanswered hidle hsaid hnone
    refine (ensures_deliver reply left).mono fun outcome later more hdelivered => ?_
    have hpaced := hquiet.paced
    have hmore := hdelivered.paced
    have hinput' : held ++ received (first ++ (asked ++ more)) = line ++ newline :: left := by
      rw [received_append, received_append, hidle, hdelivered.idle, List.append_nil,
        List.append_nil, hinput]
    have hspoken : spoken (first ++ (asked ++ more)) =
        status.toList.map Spoken.status ++ spoken more := by
      rw [spoken_append, spoken_append, hquiet.silent, hsaid, List.nil_append]
    refine ⟨fun hgoes => ⟨line, ⟨status, reply⟩, hline, hshort, ?_, hanswered, ?_⟩, fun hends => ?_,
      fun hrunning => ?_, fun error herror => ?_, ?_⟩
    · rw [hinput', hdelivered.kept]
    · rw [hspoken, hdelivered.whole hgoes]
      rfl
    · obtain ⟨event, hmem, htroubled⟩ := hdelivered.cut hends
      rw [hinput', hspoken]
      exact .cut (List.mem_append_right _ (List.mem_append_right _ hmem)) htroubled hline hshort
        hanswered ((List.prefix_append_right_inj _).mpr hdelivered.part)
    · obtain ⟨next, hnext⟩ := hdelivered.total
      cases hnext.symm.trans hrunning
    · obtain ⟨next, hnext⟩ := hdelivered.total
      cases hnext.symm.trans herror
    · rw [Program.weigh_append, Program.weigh_append, Program.weigh_append, Program.weigh_append,
        hnone]
      omega
  refine Program.ensures_bind (ensures_readRequest rounds held) ?_ ?_
  · rintro request left first ⟨htook, hquiet⟩
    have hpaced := hquiet.paced
    cases htook with
    | @line line _ _ hline hshort hinput =>
        unfold requestOf
        cases hdecode : Utf8.decode line 0 with
        | error offset =>
            exact hreply [] hline hshort hinput hquiet (answered_notUtf8 hdecode) rfl rfl rfl
        | ok text =>
            rcases @judgeLine_cases library _ _ hdecode with
              ⟨refusal, hjudge, hanswered⟩ | ⟨hjudge, hasks⟩
            · simp only [hjudge]
              exact hreply [] hline hshort hinput hquiet hanswered rfl rfl rfl
            · simp only [hjudge]
              refine Program.ensures_ask_bind fun answer => ?_
              match answer with
              | .ok status =>
                  exact hreply [⟨.status, .ok status⟩] hline hshort hinput hquiet
                    (answered_success hasks status) rfl rfl rfl
              | .error cancelled =>
                  refine Program.ensures_pure ⟨nofun, fun _ => ?_, nofun, nofun, ?_⟩
                  · rw [spoken_append, hquiet.silent]
                    have hmem : (⟨.status, .error cancelled⟩ : Event) ∈
                        first ++ [⟨.status, .error cancelled⟩] :=
                      List.mem_append_right _ (List.mem_singleton_self _)
                    exact .silent hmem trivial
                  · rw [Program.weigh_append, Program.weigh_append]
                    have hnone : Program.weigh looks [⟨.status, .error cancelled⟩] = 0 := rfl
                    omega
    | tooLong hpiece hlong hinput =>
        refine Program.ensures_ask_bind fun sent => Program.ensures_ask_bind fun flushed => ?_
        refine Program.ensures_pure ⟨nofun, fun _ => ?_, nofun, nofun, ?_⟩
        · have hsame : held ++ received (first ++ [⟨.write (written library tooLong), sent⟩,
              ⟨.flush, flushed⟩]) = held ++ received first := by
            rw [received_append]
            exact congrArg (held ++ ·) (List.append_nil _)
          rw [hsame, hinput, spoken_append, hquiet.silent]
          exact .tooLong hpiece hlong
        · rw [Program.weigh_append, Program.weigh_append]
          have hnone : Program.weigh looks [⟨.write (written library tooLong), sent⟩,
            ⟨.flush, flushed⟩] = 0 := rfl
          omega
    | finished hfinished hpiece hshort =>
        refine Program.ensures_pure ⟨nofun, fun _ => ?_, nofun, nofun, ?_⟩
        · rw [List.append_nil, hquiet.silent]
          exact .finished hfinished hpiece hshort
        · rw [List.append_nil]
          omega
    | troubled hmem htroubled =>
        refine Program.ensures_pure ⟨nofun, fun _ => ?_, nofun, nofun, ?_⟩
        · rw [List.append_nil, hquiet.silent]
          exact .silent hmem htroubled
        · rw [List.append_nil]
          omega
  · rintro stop left first ⟨htook, hquiet⟩
    have hpaced := hquiet.paced
    cases htook
    exact ⟨nofun, nofun, fun _ => hquiet.silent, nofun, by omega⟩

/-! ## A whole conversation -/

/-- The lines that were taken so far, and the exchange each of them had. -/
structure Answering (library : Library) (lines : List (List UInt8)) (exchanges : List Exchange)
    (left : List UInt8) (events : List Event) : Prop where
  input : received events = Frames.frames newline lines ++ left
  free : Frames.Free newline lines
  short : ∀ line ∈ lines, line.length ≤ maxRequestBytes
  answered : List.Forall₂ (Answered library) lines exchanges
  uttered : spoken events = exchanges.flatMap (Exchange.spoken library)
  paced : Program.weigh looks events ≤ Program.weigh reads events + 3 * lines.length

theorem Answering.next {lines : List (List UInt8)} {exchanges : List Exchange}
    {held left line : List UInt8} {exchange : Exchange} {events more : List Event}
    (hanswering : Answering library lines exchanges held events) (hline : newline ∉ line)
    (hshort : line.length ≤ maxRequestBytes)
    (hinput : held ++ received more = line ++ newline :: left)
    (hanswered : Answered library line exchange) (hspoken : spoken more = exchange.spoken library)
    (hpaced : Program.weigh looks more ≤ Program.weigh reads more + 3) :
    Answering library (lines ++ [line]) (exchanges ++ [exchange]) left (events ++ more) where
  input := by
    rw [received_append, hanswering.input, List.append_assoc, hinput, Frames.frames_append,
      Frames.frames_cons, Frames.frames_nil]
    simp
  free := Frames.free_append.mpr
    ⟨hanswering.free, Frames.free_cons.mpr ⟨hline, Frames.free_nil⟩⟩
  short other hother := by
    rcases List.mem_append.mp hother with hother | hother
    · exact hanswering.short other hother
    · rw [List.mem_singleton.mp hother]
      exact hshort
  answered := List.rel_append hanswering.answered (.cons hanswered .nil)
  uttered := by
    rw [spoken_append, hanswering.uttered, hspoken, List.flatMap_append, List.flatMap_singleton]
  paced := by
    have hbefore := hanswering.paced
    rw [Program.weigh_append, Program.weigh_append, List.length_append, List.length_singleton]
    omega

/-- What a conversation has said of the bytes the client sent. -/
def Conversed (library : Library) (outcome : Outcome ε Unit) (events : List Event) : Prop :=
  ∃ lines exchanges rest last,
    received events = Frames.frames newline lines ++ rest ∧ Frames.Free newline lines ∧
    (∀ line ∈ lines, line.length ≤ maxRequestBytes) ∧
    List.Forall₂ (Answered library) lines exchanges ∧
    spoken events = exchanges.flatMap (Exchange.spoken library) ++ last ∧
    (outcome = .ok () → Closes library events rest last) ∧
    (outcome = .stop .running → last = []) ∧
    (∀ error, outcome ≠ .stop (.error error)) ∧
    Program.weigh looks events ≤ Program.weigh reads events + 3 * (lines.length + 1)

/-- A conversation answers its lines in order, each once, until it ends. -/
theorem ensures_converse (rounds : Nat) :
    (converse library rounds : Step ε _).Ensures [] fun outcome _ events =>
      Conversed library outcome events := by
  refine Program.ensures_ask_bind fun whole => ?_
  match whole with
  | false =>
      have hmem : (⟨.setUp, false⟩ : Event) ∈ [(⟨.setUp, false⟩ : Event)] := List.mem_cons_self
      exact Program.ensures_pure ⟨[], [], [], [], rfl, Frames.free_nil, nofun, .nil, rfl,
        fun _ => .silent hmem rfl, nofun, nofun, Nat.zero_le _⟩
  | true =>
      refine @Program.ensures_rounds world (List UInt8) ε Unit Unit [] (fun outcome _ events =>
        Conversed library outcome events) _ (fun _ left events => ∃ lines exchanges,
          Answering library lines exchanges left events) ?_ ?_ rounds () [⟨.setUp, true⟩]
        ⟨[], [], rfl, Frames.free_nil, nofun, .nil, rfl, Nat.zero_le _⟩
      · rintro _ held events ⟨lines, exchanges, hanswering⟩
        refine (ensures_turn rounds held).mono fun outcome left more hserved => ?_
        have hbefore := hanswering.paced
        have hpaced := hserved.paced
        have hlooks : Program.weigh looks (events ++ more) ≤
            Program.weigh reads (events ++ more) + 3 * (lines.length + 1) := by
          rw [Program.weigh_append, Program.weigh_append]
          omega
        have hinput : received (events ++ more) =
            Frames.frames newline lines ++ (held ++ received more) := by
          rw [received_append, hanswering.input, List.append_assoc]
        have hsays : spoken (events ++ more) =
            exchanges.flatMap (Exchange.spoken library) ++ spoken more := by
          rw [spoken_append, hanswering.uttered]
        rcases outcome with (⟨⟨⟩⟩ | ⟨⟨⟩⟩) | (error | _)
        · obtain ⟨line, exchange, hline, hshort, hrest, hanswered, hspoken⟩ := hserved.goesOn rfl
          exact ⟨lines ++ [line], exchanges ++ [exchange],
            hanswering.next hline hshort hrest hanswered hspoken hpaced⟩
        · exact ⟨lines, exchanges, _, _, hinput, hanswering.free, hanswering.short,
            hanswering.answered, hsays, fun _ => (hserved.ends rfl).after, nofun, nofun, hlooks⟩
        · exact (hserved.harmless error rfl).elim
        · exact ⟨lines, exchanges, _, _, hinput, hanswering.free, hanswering.short,
            hanswering.answered, hsays, nofun, fun _ => hserved.running rfl, nofun, hlooks⟩
      · rintro _ left events ⟨lines, exchanges, hanswering⟩
        have hpaced := hanswering.paced
        refine ⟨lines, exchanges, left, [], hanswering.input, hanswering.free, hanswering.short,
          hanswering.answered, ?_, nofun, fun _ => rfl, nofun, by omega⟩
        rw [List.append_nil]
        exact hanswering.uttered

/-- A request that is still read has looked as often as its rounds; one that is answered has
looked. -/
def Looked (rounds : Nat) (outcome : Outcome ε (Unit ⊕ Unit)) (events : List Event) : Prop :=
  match outcome with
  | .ok (.inl _) => 1 ≤ Program.weigh looks events
  | .stop .running => rounds ≤ Program.weigh looks events
  | _ => True

theorem looks_deliver (reply : Value) (held : List UInt8) :
    (deliver library reply : Step ε _).Ensures held fun outcome _ events =>
      (∃ next, outcome = .ok next) ∧ 1 ≤ Program.weigh looks events := by
  refine Program.ensures_ask_bind fun seen => ?_
  match seen with
  | true => exact Program.ensures_pure ⟨⟨_, rfl⟩, Nat.le_refl 1⟩
  | false =>
      refine Program.ensures_ask_bind fun sent => ?_
      match sent with
      | false => exact Program.ensures_pure ⟨⟨_, rfl⟩, Nat.le_refl 1⟩
      | true =>
          refine Program.ensures_ask_bind fun flushed => ?_
          match flushed with
          | false => exact Program.ensures_pure ⟨⟨_, rfl⟩, Nat.le_refl 1⟩
          | true => exact Program.ensures_pure ⟨⟨_, rfl⟩, Nat.le_refl 1⟩

theorem looks_turn (rounds : Nat) (held : List UInt8) :
    (turn library rounds : Step ε _).Ensures held fun outcome _ events =>
      Looked rounds outcome events := by
  have hreply : ∀ (reply : Value) (left : List UInt8) (before : List Event),
      (deliver library reply : Step ε _).Ensures left fun outcome _ more =>
        Looked rounds outcome (before ++ more) := by
    intro reply left before
    refine (looks_deliver reply left).mono fun outcome _ more hmore => ?_
    obtain ⟨⟨next, rfl⟩, hlooks⟩ := hmore
    cases next with
    | inl _ =>
        unfold Looked
        rw [Program.weigh_append]
        omega
    | inr _ => trivial
  refine Program.ensures_bind (looks_readRequest rounds held) ?_ ?_
  · intro request left first _
    cases request with
    | line text =>
        cases hjudge : judgeLine library text with
        | error refusal =>
            simp only [hjudge]
            exact hreply refusal left first
        | ok id =>
            simp only [hjudge]
            refine Program.ensures_ask_bind fun answer => ?_
            cases answer with
            | ok status =>
                refine (hreply (success id status) left (first ++ [⟨.status, .ok status⟩])).mono ?_
                intro outcome _ more hmore
                rwa [List.append_assoc] at hmore
            | error _ => exact Program.ensures_pure trivial
    | notUtf8 => exact hreply notUtf8 left first
    | tooLong =>
        exact Program.ensures_ask_bind fun _ => Program.ensures_ask_bind fun _ =>
          Program.ensures_pure trivial
    | ended => exact Program.ensures_pure trivial
  · intro stop left first hrunning
    cases stop with
    | error error => trivial
    | running => exact hrunning rfl

/-- A conversation is only still running after as many looks as it was given rounds. -/
theorem looks_converse (rounds : Nat) :
    (converse library rounds : Step ε _).Ensures [] fun outcome _ events =>
      outcome = .stop .running → rounds ≤ Program.weigh looks events := by
  refine Program.ensures_ask_bind fun whole => ?_
  match whole with
  | false => exact Program.ensures_pure nofun
  | true =>
      refine (@Program.rounds_running world (List UInt8) ε Unit Unit looks _ rounds
        (fun _ held => ?_) rounds (Nat.le_refl rounds) () []).mono
          fun outcome _ events hrunning houtcome => ?_
      · refine (looks_turn rounds held).mono fun outcome _ events hlooked => ?_
        rcases outcome with (_ | _) | (_ | _) <;> exact hlooked
      · rw [Program.weigh_cons]
        exact (hrunning houtcome).trans (Nat.le_add_left _ _)

/-! ## Trouble -/

def Calm (events : List Event) : Prop := ∀ event ∈ events, ¬Troubled event

theorem Calm.append {first second : List Event} (hfirst : Calm first) (hsecond : Calm second) :
    Calm (first ++ second) :=
  fun event hmem => (List.mem_append.mp hmem).elim (hfirst event) (hsecond event)

theorem Calm.concat {events : List Event} {event : Event} (hevents : Calm events)
    (hevent : ¬Troubled event) : Calm (events ++ [event]) :=
  hevents.append (List.forall_mem_singleton.mpr hevent)

/-- Nothing went wrong before the last event, or before the reply that a line is too long. -/
inductive Interrupted (library : Library) : List Event → Prop where
  | last {before : List Event} {event : Event} (hbefore : Calm before) :
      Interrupted library (before ++ [event])
  | unwritten {before : List Event} {whole : Bool} (hbefore : Calm before) :
      Interrupted library
        (before ++ [⟨.write (written library tooLong), false⟩, ⟨.flush, whole⟩])

/-- Nothing went wrong, or it did at the end and that is the end. -/
def Halts (library : Library) (ends : Prop) (events : List Event) : Prop :=
  Calm events ∨ ends ∧ Interrupted library events

theorem Interrupted.after {first second : List Event} (hfirst : Calm first)
    (hsecond : Interrupted library second) : Interrupted library (first ++ second) := by
  cases hsecond with
  | last hbefore =>
      rw [← List.append_assoc]
      exact .last (hfirst.append hbefore)
  | unwritten hbefore =>
      rw [← List.append_assoc]
      exact .unwritten (hfirst.append hbefore)

/-- What halts after calm events halts. -/
theorem Halts.after {ends : Prop} {first second : List Event} (hfirst : Calm first)
    (hsecond : Halts library ends second) : Halts library ends (first ++ second) :=
  hsecond.imp hfirst.append fun ⟨hends, hinterrupted⟩ => ⟨hends, hinterrupted.after hfirst⟩

/-- Where the run goes on, nothing was in trouble. -/
theorem Halts.calm {ends : Prop} {events : List Event} (hhalts : Halts library ends events)
    (hgoes : ¬ends) : Calm events :=
  hhalts.resolve_right fun hended => hgoes hended.1

/-- What halts under one end halts under a later one. -/
theorem Halts.imp {ends later : Prop} {events : List Event} (hhalts : Halts library ends events)
    (hends : ends → later) : Halts library later events :=
  Or.imp_right (And.imp_left hends) hhalts

/-- The last event of a conversation may be trouble. -/
theorem halts_concat {ends : Prop} {events : List Event} {event : Event} (hevents : Calm events)
    (hends : Troubled event → ends) : Halts library ends (events ++ [event]) := by
  by_cases hevent : Troubled event
  · exact .inr ⟨hends hevent, .last hevents⟩
  · exact .inl (hevents.concat hevent)

/-- Where the trouble of an interrupted conversation is. -/
theorem Interrupted.cut {before after : List Event} {event : Event}
    (hinterrupted : Interrupted library (before ++ event :: after)) (htroubled : Troubled event) :
    after = [] ∨ ∃ whole,
      event = ⟨.write (written library tooLong), false⟩ ∧ after = [⟨.flush, whole⟩] := by
  generalize hall : before ++ event :: after = events at hinterrupted
  -- trouble is not among the calm events that come first
  have hlate : ∀ {calm rest : List Event}, Calm calm → before ++ event :: after = calm ++ rest →
      ∃ between, rest = between ++ event :: after := by
    intro calm rest hcalm hsame
    rcases List.append_eq_append_iff.mp hsame with
        ⟨between, hbefore, hrest⟩ | ⟨between, hcalms, hrest⟩
    · cases between with
      | nil => exact ⟨[], hrest.symm⟩
      | cons first between =>
          rw [List.cons_append] at hrest
          cases (List.cons.inj hrest).1
          refine (hcalm event ?_ htroubled).elim
          rw [hbefore]
          exact List.mem_append_right _ List.mem_cons_self
    · exact ⟨between, hrest⟩
  cases hinterrupted with
  | last hbefore =>
      obtain ⟨between, hrest⟩ := hlate hbefore hall
      cases between with
      | nil => exact .inl (List.cons.inj hrest).2.symm
      | cons first between =>
          have hnone := (List.cons.inj hrest).2
          simp at hnone
  | @unwritten _ whole hbefore =>
      obtain ⟨between, hrest⟩ := hlate hbefore hall
      cases between with
      | nil =>
          obtain ⟨hevent, hafter⟩ := List.cons.inj hrest
          exact .inr ⟨whole, hevent.symm, hafter.symm⟩
      | cons first between =>
          have hflush := (List.cons.inj hrest).2
          cases between with
          | nil => exact .inl (List.cons.inj hflush).2.symm
          | cons second between =>
              have hnone := (List.cons.inj hflush).2
              simp at hnone

/-- A conversation that halts ends with its trouble. -/
theorem Halts.endsInTrouble {outcome : Outcome ε Unit} {events : List Event}
    (hhalts : Halts library (outcome = .ok ()) events) : EndsInTrouble library outcome events := by
  rintro before event after rfl htroubled
  rcases hhalts with hcalm | ⟨hended, hinterrupted⟩
  · exact (hcalm event (List.mem_append_right _ List.mem_cons_self) htroubled).elim
  · exact ⟨hended, hinterrupted.cut htroubled⟩

theorem halts_takeAvailable {held line available : List UInt8} {events : List Event}
    (hevents : Calm events) :
    (takeAvailable line available : Step ε _).Ensures held fun outcome _ more =>
      (∃ value, outcome = .ok value) ∧ Calm (events ++ more) := by
  unfold takeAvailable
  split <;> refine Program.ensures_set_bind ?_ <;> split <;>
    exact Program.ensures_pure ⟨⟨_, rfl⟩, by rwa [List.append_nil]⟩

/-- A request stops being read at the first failure. -/
theorem halts_readRequest (rounds : Nat) (held : List UInt8) :
    (readRequest rounds : Step ε _).Ensures held fun outcome _ events =>
      Halts library (outcome = .ok .ended) events := by
  refine Program.ensures_loop (fun _ _ events => Calm events) ?_ (fun _ _ _ hcalm => .inl hcalm)
    rounds nofun
  intro line left events hcalm
  refine Program.ensures_ask_bind fun seen => ?_
  match seen with
  | true => exact Program.ensures_pure (halts_concat hcalm fun _ => rfl)
  | false =>
      have hlooked : Calm (events ++ [⟨.shutdown, false⟩]) := hcalm.concat Bool.false_ne_true
      refine ensures_fillBuf_bind ?_ ?_ ?_
      · intro hsome
        obtain ⟨first, others, rfl⟩ := List.exists_cons_of_ne_nil hsome
        refine (halts_takeAvailable hlooked).mono fun outcome later more hmore => ?_
        obtain ⟨⟨value, rfl⟩, hmore⟩ := hmore
        rw [List.append_assoc] at hmore
        cases value with
        | inl _ => exact hmore
        | inr _ => exact .inl hmore
      · rintro - ⟨bytes, hfits⟩
        have hread := @Calm.concat _ ⟨.read, .ok ⟨bytes, hfits⟩⟩ hlooked id
        rw [List.append_assoc] at hread
        cases bytes with
        | nil => exact Program.ensures_pure (.inl hread)
        | cons first others =>
            refine (halts_takeAvailable hread).mono fun outcome later more hmore => ?_
            obtain ⟨⟨value, rfl⟩, hmore⟩ := hmore
            rw [List.append_assoc] at hmore
            cases value with
            | inl _ => exact hmore
            | inr _ => exact .inl hmore
      · intro _ error
        change (if error.waiting then pure (Sum.inl line) else pure (Sum.inr .ended) :
          Step ε (List UInt8 ⊕ Request)).Ensures _ _
        split
        next hwaiting =>
          have hboth := @Calm.concat _ ⟨.read, .error error⟩ hlooked
            fun hfailed => Bool.false_ne_true (hfailed.symm.trans hwaiting)
          rw [List.append_assoc] at hboth
          exact Program.ensures_pure hboth
        next =>
          have hboth := @halts_concat library True _ ⟨.read, .error error⟩ hlooked fun _ => trivial
          rw [List.append_assoc] at hboth
          exact Program.ensures_pure (hboth.imp fun _ => rfl)

/-- A reply stops being delivered at the first failure. -/
theorem halts_deliver (reply : Value) (held : List UInt8) :
    (deliver library reply : Step ε _).Ensures held fun outcome _ events =>
      Halts library (outcome = .ok (.inr ())) events := by
  refine Program.ensures_ask_bind fun seen => ?_
  match seen with
  | true => exact Program.ensures_pure (@halts_concat _ _ [] _ nofun fun _ => rfl)
  | false =>
      have hlooked : Calm [⟨.shutdown, false⟩] := List.forall_mem_singleton.mpr Bool.false_ne_true
      refine Program.ensures_ask_bind fun sent => ?_
      match sent with
      | false => exact Program.ensures_pure (halts_concat hlooked fun _ => rfl)
      | true =>
          have hsent : Calm [⟨.shutdown, false⟩, ⟨.write (written library reply), true⟩] :=
            hlooked.concat (fun hcut => Bool.false_ne_true hcut.symm)
          refine Program.ensures_ask_bind fun flushed => ?_
          match flushed with
          | false => exact Program.ensures_pure (halts_concat hsent fun _ => rfl)
          | true =>
              exact Program.ensures_pure
                (.inl (hsent.concat fun hcut => Bool.false_ne_true hcut.symm))

/-- A turn stops at the first failure. -/
theorem halts_turn (rounds : Nat) (held : List UInt8) :
    (turn library rounds : Step ε _).Ensures held fun outcome _ events =>
      Halts library (outcome = .ok (.inr ())) events := by
  have hreply : ∀ (reply : Value) (left : List UInt8) {first : List Event}, Calm first →
      (deliver library reply : Step ε _).Ensures left fun outcome _ more =>
        Halts library (outcome = .ok (.inr ())) (first ++ more) :=
    fun reply left _ hfirst => (halts_deliver reply left).mono fun _ _ _ hmore => hmore.after hfirst
  refine Program.ensures_bind (@halts_readRequest library ε rounds held) ?_ ?_
  · intro request left first hhalts
    cases request with
    | line text =>
        have hcalm := hhalts.calm nofun
        cases hjudge : judgeLine library text with
        | error refusal =>
            simp only [hjudge]
            exact hreply refusal left hcalm
        | ok id =>
            simp only [hjudge]
            refine Program.ensures_ask_bind fun answer => ?_
            cases answer with
            | ok status =>
                have hasked := @Calm.concat _ ⟨.status, .ok status⟩ hcalm fun hnone => hnone
                refine (hreply (success id status) left hasked).mono fun outcome _ more hmore => ?_
                rwa [List.append_assoc] at hmore
            | error _ => exact Program.ensures_pure (halts_concat hcalm fun _ => rfl)
    | notUtf8 => exact hreply notUtf8 left (hhalts.calm nofun)
    | tooLong =>
        have hcalm := hhalts.calm nofun
        refine Program.ensures_ask_bind fun sent => Program.ensures_ask_bind fun flushed => ?_
        refine Program.ensures_pure ?_
        match sent with
        | false => exact .inr ⟨rfl, .unwritten hcalm⟩
        | true =>
            have hsent := @Calm.concat _ ⟨.write (written library tooLong), true⟩ hcalm
              fun hcut => Bool.false_ne_true hcut.symm
            have hboth := @halts_concat library True _ ⟨.flush, flushed⟩ hsent fun _ => trivial
            rw [List.append_assoc] at hboth
            exact hboth.imp fun _ => rfl
    | ended =>
        refine Program.ensures_pure ?_
        rw [List.append_nil]
        exact hhalts.imp fun _ => rfl
  · exact fun stop left first hhalts => .inl (hhalts.calm nofun)

/-- A conversation stops at the first failure. -/
theorem halts_converse (rounds : Nat) :
    (converse library rounds : Step ε _).Ensures [] fun outcome _ events =>
      Halts library (outcome = .ok ()) events := by
  refine Program.ensures_ask_bind fun whole => ?_
  match whole with
  | false => exact Program.ensures_pure (@halts_concat _ _ [] _ nofun fun _ => rfl)
  | true =>
      refine @Program.ensures_rounds world (List UInt8) ε Unit Unit [] (fun outcome _ events =>
        Halts library (outcome = .ok ()) events) _ (fun _ _ events => Calm events) ?_
        (fun _ _ _ hcalm => .inl hcalm) rounds () [⟨.setUp, true⟩]
        (List.forall_mem_singleton.mpr fun hcut => Bool.false_ne_true hcut.symm)
      intro _ held events hcalm
      refine (halts_turn rounds held).mono fun outcome left more hmore => ?_
      rcases outcome with (⟨⟨⟩⟩ | ⟨⟨⟩⟩) | stop
      · exact hcalm.append (hmore.calm nofun)
      · exact (hmore.after hcalm).imp fun _ => rfl
      · exact .inl (hcalm.append (hmore.calm nofun))

/-- Every line a client sends is answered once and in order, by one line that carries its id, and
the brokers are asked exactly once for each line that asks for the status. A conversation ends
where the client does, with nothing said of an unfinished line; at the first line that is too
long, once that was said; or at the first trouble, after which nothing is asked. However the bytes
are cut into reads, it goes on only while there is something to read or to answer. -/
theorem conversation_answers_each_line (library : Library) (rounds : Nat) :
    (converse library rounds : Step Empty _).Ensures [] fun outcome _ events =>
      Conversed library outcome events ∧ EndsInTrouble library outcome events ∧
        (outcome = .stop .running → rounds ≤ Program.weigh looks events) :=
  fun world past => ⟨ensures_converse rounds world past,
    (halts_converse rounds world past).endsInTrouble, looks_converse rounds world past⟩

end Requests

end Plasmosome.Membrane.Control
