import Plasmosome.Paging.Assembler
import Plasmosome.Paging.Slot

/-!
# A whole transfer

A caller asks for the cursor its assembler names, the slot answers, and the
assembler takes the page. With every reading before every deadline the loop
ends after one round a page, holding exactly the frozen bytes.
-/

namespace Plasmosome.Paging

open Foundation Backend

/-- One request: its deadline and the readings of the responder's clock while it answers. -/
structure Round (Instant : Type) where
  deadline : Instant
  before : Instant
  after : Instant

/-- How the loop ended. -/
inductive Transfer where
  | finished (assembler : PageAssembler) (pages : List ObservationPage)
  | refusedRequest (error : CaptureError Empty)
  | refusedPage (fault : AssemblyFault)
  | unfinished
deriving DecidableEq

section Loop

variable {Scope Instant : Type} [LinearOrder Instant] [DecidableEq Scope]

/-- Answers a cursor: zero/zero with a capture of the account, any other with a page. -/
def answer (scope : Scope) (account : FrozenAccount) (slot : CaptureSlot Scope Instant)
    (round : Round Instant) (cursor : PageCursor) :
    Except (CaptureError Empty) ObservationPage × CaptureSlot Scope Instant :=
  if cursor.isStart then
    slot.capture scope round.deadline round.before round.after (.ok account)
  else (slot.page scope cursor round.deadline round.before).map (·.mapError .paging) id

/-- Asks for pages until the assembler wants no more, for at most `fuel` rounds. -/
def transfer (scope : Scope) (account : FrozenAccount) (rounds : Nat → Round Instant) :
    (fuel index : Nat) → CaptureSlot Scope Instant → PageAssembler → List ObservationPage →
      Transfer
  | fuel, index, slot, assembler, pages =>
      match assembler.next with
      | none => .finished assembler pages
      | some cursor =>
          match fuel with
          | 0 => .unfinished
          | fuel + 1 =>
              match answer scope account slot (rounds index) cursor with
              | (.error error, _) => .refusedRequest error
              | (.ok page, slot) =>
                  match assembler.accept page with
                  | (.error fault, _) => .refusedPage fault
                  | (.ok (), assembler) =>
                      transfer scope account rounds fuel (index + 1) slot assembler
                        (pages ++ [page])

/-! ## Between two rounds -/

/-- After some rounds: the slot holds the capture, and the assembler the first `sent` bytes. -/
structure Midway (scope : Scope) (account : FrozenAccount) (rounds : Nat → Round Instant)
    (sent : Nat) (slot : CaptureSlot Scope Instant) (assembler : PageAssembler) : Prop where
  current : ∃ expires, slot.current = some ⟨1, scope, account, expires⟩ ∧
    ∀ index, (rounds index).before < expires
  started : assembler.started =
    some ⟨1, account.total, account.sha256, sent = account.bytes.list.length⟩
  buffer : assembler.buffer = account.bytes.list.take sent
  positive : 0 < sent
  within : sent ≤ account.bytes.list.length

variable {scope : Scope} {account : FrozenAccount} {rounds : Nat → Round Instant}

/-- The bytes sent after one more page. -/
theorem buffer_extends {sent pageBytes : Nat} (hwithin : sent ≤ account.bytes.list.length) :
    account.bytes.list.take sent ++ account.pageBytesAt sent pageBytes =
      account.bytes.list.take (min account.bytes.list.length (sent + pageBytes)) := by
  rw [FrozenAccount.pageBytesAt, ← window_zero_eq_take, ← window_zero_eq_take,
    window_append _ (Nat.zero_le _) (by omega)]

theorem toNat_ofNat_within {sent : Nat} (hwithin : sent ≤ account.bytes.list.length) :
    (UInt64.ofNat sent).toNat = sent := by
  apply toNat_ofNat_of_fits
  have hallocated := account.bytes.allocated
  simp only [UInt64.size]
  omega

/-- The page at the first missing byte is accepted, and completes the buffer when it is the last. -/
theorem accept_page_at {sent pageBytes : Nat} {assembler : PageAssembler}
    (hsize : 1 ≤ pageBytes ∧ pageBytes ≤ maxPageBytes)
    (hmissing : sent < account.bytes.list.length)
    (hbuffer : assembler.buffer = account.bytes.list.take sent)
    (hstarted : assembler.started = none ∧ sent = 0 ∨
      assembler.started = some ⟨1, account.total, account.sha256, false⟩) :
    (pageAt 1 account (UInt64.ofNat sent) pageBytes).check = .ok () ∧
      assembler.accept (pageAt 1 account (UInt64.ofNat sent) pageBytes) =
        (.ok (), ⟨some ⟨1, account.total, account.sha256,
            min account.bytes.list.length (sent + pageBytes) = account.bytes.list.length⟩,
          account.bytes.list.take (min account.bytes.list.length (sent + pageBytes))⟩) := by
  have hoffset : (UInt64.ofNat sent).toNat = sent := toNat_ofNat_within hmissing.le
  have hwellFormed : (pageAt 1 account (UInt64.ofNat sent) pageBytes).WellFormed :=
    pageAt_wellFormed (by decide) hsize.1 hsize.2 (by rwa [hoffset])
  have hcheck := ObservationPage.check_eq_ok_iff.mpr hwellFormed
  have hreceived : assembler.received = UInt64.ofNat sent := by
    rw [PageAssembler.received, hbuffer, List.length_take, Nat.min_eq_left hmissing.le]
  have hadmits : assembler.admits (pageAt 1 account (UInt64.ofNat sent) pageBytes) = .ok () := by
    unfold PageAssembler.admits
    rw [hcheck]
    obtain ⟨hnone, rfl⟩ | hsome := hstarted
    · rw [hnone]
      rfl
    · rw [hsome]
      simp [PageAssembler.follows, pageAt, hreceived]
  refine ⟨hcheck, ?_⟩
  unfold PageAssembler.accept
  rw [hadmits, hbuffer]
  simp only [pageAt, hoffset, buffer_extends hmissing.le]

/-- The rounds still to come once `sent` bytes were sent. -/
def pagesLeft (account : FrozenAccount) (pageBytes sent : Nat) : Nat :=
  (account.bytes.list.length - sent + pageBytes - 1) / pageBytes

theorem pagesLeft_succ {pageBytes sent : Nat} (hsize : 1 ≤ pageBytes)
    (hmissing : sent < account.bytes.list.length) :
    pagesLeft account pageBytes sent =
      pagesLeft account pageBytes (min account.bytes.list.length (sent + pageBytes)) + 1 := by
  unfold pagesLeft
  generalize account.bytes.list.length = length at hmissing
  by_cases hlast : length ≤ sent + pageBytes
  · have hone : length - sent + pageBytes - 1 = (length - sent - 1) + pageBytes := by omega
    rw [Nat.min_eq_left hlast, hone, Nat.add_div_right _ (by omega),
      Nat.div_eq_of_lt (by omega), Nat.div_eq_of_lt (by omega)]
  · have hmore : length - sent + pageBytes - 1 =
        (length - (sent + pageBytes) + pageBytes - 1) + pageBytes := by omega
    rw [Nat.min_eq_right (by omega), hmore, Nat.add_div_right _ (by omega)]

theorem pagesLeft_length (pageBytes : Nat) (hsize : 1 ≤ pageBytes) :
    pagesLeft account pageBytes account.bytes.list.length = 0 := by
  unfold pagesLeft
  rw [Nat.sub_self]
  exact Nat.div_eq_of_lt (by omega)

/-! ## One round -/

/-- Every reading is before every deadline. -/
def Prompt (rounds : Nat → Round Instant) : Prop :=
  ∀ index other, (rounds index).before < (rounds other).deadline ∧
    (rounds index).after < (rounds other).deadline

theorem answer_start (hclock : Prompt rounds) {slot : CaptureSlot Scope Instant}
    (hfresh : slot.lastSnapshot = 0) (index : Nat) :
    answer scope account slot (rounds index) .start =
      (.ok (pageAt 1 account 0 slot.pageBytes),
        { slot with
          lastSnapshot := 1
          current := some ⟨1, scope, account, (rounds index).deadline⟩
          ended := none }) := by
  obtain ⟨hbefore, hafter⟩ := hclock index index
  have hnext : checkedAdd slot.lastSnapshot 1 = some 1 := by
    rw [hfresh]
    decide
  have hstart : PageCursor.start.isStart = true := by decide
  simp only [answer, hstart, if_true, CaptureSlot.capture, ge_iff_le, not_le.mpr hbefore,
    not_le.mpr hafter, if_false, hnext]
  rfl

theorem answer_page (hclock : Prompt rounds) {slot : CaptureSlot Scope Instant} {expires : Instant}
    (hcurrent : slot.current = some ⟨1, scope, account, expires⟩)
    (hexpires : ∀ index, (rounds index).before < expires) {sent : Nat}
    (hmissing : sent < account.bytes.list.length) (index : Nat) :
    answer scope account slot (rounds index) ⟨1, UInt64.ofNat sent⟩ =
      (.ok (pageAt 1 account (UInt64.ofNat sent) slot.pageBytes),
        { slot with
          current := some ⟨1, scope, account, min expires (rounds index).deadline⟩ }) := by
  have hstart : (PageCursor.mk 1 (UInt64.ofNat sent)).isStart = false := by
    simp [PageCursor.isStart, PageCursor.start]
  have hlive : ¬ (rounds index).before ≥ min expires (rounds index).deadline :=
    not_le.mpr (lt_min (hexpires index) (hclock index index).1)
  have hinside : ¬ UInt64.ofNat sent ≥ account.total := by
    rw [ge_iff_le, UInt64.le_iff_toNat_le, account.toNat_total,
      toNat_ofNat_within hmissing.le]
    omega
  have hheld : slot.current.filter (fun held => held.snapshot = 1) =
      some ⟨1, scope, account, expires⟩ := by
    simp [hcurrent]
  simp only [answer, hstart, Bool.false_eq_true, if_false, CaptureSlot.page, hheld, ne_eq,
    not_true_eq_false, hlive, hinside]
  rfl

/-! ## The whole loop -/

/-- With every byte sent the loop ends without another round. -/
theorem transfer_complete {pageBytes : Nat} (hsize : 1 ≤ pageBytes) {fuel index sent : Nat}
    {slot : CaptureSlot Scope Instant} {assembler : PageAssembler} {pages : List ObservationPage}
    (hall : sent = account.bytes.list.length)
    (hstarted : assembler.started =
      some ⟨1, account.total, account.sha256, sent = account.bytes.list.length⟩)
    (hbuffer : assembler.buffer = account.bytes.list.take sent) :
    ∃ rest,
      transfer scope account rounds fuel index slot assembler pages =
        .finished ⟨some ⟨1, account.total, account.sha256, true⟩, account.bytes.list⟩
          (pages ++ rest) ∧
      rest.length = pagesLeft account pageBytes sent ∧
      ∀ page ∈ rest, page.check = .ok () := by
  subst hall
  rw [decide_eq_true rfl] at hstarted
  rw [List.take_length] at hbuffer
  have hassembler : assembler =
      ⟨some ⟨1, account.total, account.sha256, true⟩, account.bytes.list⟩ := by
    cases assembler
    simp only at hstarted hbuffer
    rw [hstarted, hbuffer]
  refine ⟨[], ?_, (pagesLeft_length pageBytes hsize).symm, nofun⟩
  subst hassembler
  cases fuel <;> simp [transfer, PageAssembler.next]

/-- From between two rounds the loop ends after as many rounds as there are pages left. -/
theorem transfer_midway (hclock : Prompt rounds) {pageBytes : Nat}
    (hsize : 1 ≤ pageBytes ∧ pageBytes ≤ maxPageBytes) {fuel index sent : Nat}
    {slot : CaptureSlot Scope Instant} {assembler : PageAssembler} {pages : List ObservationPage}
    (hmidway : Midway scope account rounds sent slot assembler)
    (hslot : slot.pageBytes = pageBytes)
    (hfuel : pagesLeft account pageBytes sent ≤ fuel) :
    ∃ rest,
      transfer scope account rounds fuel index slot assembler pages =
        .finished ⟨some ⟨1, account.total, account.sha256, true⟩, account.bytes.list⟩
          (pages ++ rest) ∧
      rest.length = pagesLeft account pageBytes sent ∧
      ∀ page ∈ rest, page.check = .ok () := by
  induction fuel generalizing index sent slot assembler pages with
  | zero =>
      obtain ⟨-, hstarted, hbuffer, -, hwithin⟩ := hmidway
      -- Without fuel no page is missing: a missing one would be a round to come.
      have hall : sent = account.bytes.list.length := by
        by_contra hother
        have hmissing : sent < account.bytes.list.length := by omega
        have hsucc := pagesLeft_succ hsize.1 hmissing
        omega
      exact transfer_complete hsize.1 hall hstarted hbuffer
  | succ fuel ih =>
      obtain ⟨⟨expires, hcurrent, hexpires⟩, hstarted, hbuffer, hpositive, hwithin⟩ := hmidway
      by_cases hmissing : sent < account.bytes.list.length
      · have hsucc := pagesLeft_succ hsize.1 hmissing
        have hopen : decide (sent = account.bytes.list.length) = false := by
          rw [decide_eq_false_iff_not]
          omega
        rw [hopen] at hstarted
        have hreceived : assembler.received = UInt64.ofNat sent := by
          rw [PageAssembler.received, hbuffer, List.length_take, Nat.min_eq_left hwithin]
        have hnext : assembler.next = some ⟨1, UInt64.ofNat sent⟩ := by
          simp [PageAssembler.next, hstarted, hreceived]
        have hanswer := answer_page hclock hcurrent hexpires hmissing index
        obtain ⟨hcheck, haccept⟩ := accept_page_at (hslot.symm ▸ hsize) hmissing hbuffer
          (.inr hstarted)
        have hlater : ∀ other, (rounds other).before < min expires (rounds index).deadline :=
          fun other => lt_min (hexpires other) (hclock other index).1
        have hthen : Midway scope account rounds
            (min account.bytes.list.length (sent + slot.pageBytes))
            { slot with
              current := some ⟨1, scope, account, min expires (rounds index).deadline⟩ }
            ⟨some ⟨1, account.total, account.sha256,
                min account.bytes.list.length (sent + slot.pageBytes) =
                  account.bytes.list.length⟩,
              account.bytes.list.take
                (min account.bytes.list.length (sent + slot.pageBytes))⟩ :=
          ⟨⟨_, rfl, hlater⟩, rfl, rfl, by omega, Nat.min_le_left _ _⟩
        have hless : pagesLeft account pageBytes
            (min account.bytes.list.length (sent + slot.pageBytes)) ≤ fuel := by
          rw [hslot]
          omega
        obtain ⟨rest, htransfer, hlength, hchecks⟩ :=
          @ih (index + 1) _ _ _
            (pages ++ [pageAt 1 account (UInt64.ofNat sent) slot.pageBytes]) hthen hslot hless
        refine ⟨pageAt 1 account (UInt64.ofNat sent) slot.pageBytes :: rest, ?_, ?_, ?_⟩
        · rw [transfer]
          simp only [hnext, hanswer, haccept, htransfer, List.append_assoc,
            List.singleton_append]
        · rw [List.length_cons, hlength, hsucc, hslot]
        · intro page hpage
          rcases List.mem_cons.mp hpage with rfl | hrest
          · exact hcheck
          · exact hchecks page hrest
      · exact transfer_complete hsize.1 (by omega) hstarted hbuffer

/-- From a new slot and a new assembler the loop takes one round a page. -/
theorem transfer_new (hclock : Prompt rounds) {fuel pageBytes : Nat}
    {slot : CaptureSlot Scope Instant}
    (hslot : CaptureSlot.withPageBytes pageBytes = .ok slot)
    (hfuel : pagesLeft account pageBytes 0 ≤ fuel) :
    ∃ pages,
      transfer scope account rounds fuel 0 slot .new [] =
        .finished ⟨some ⟨1, account.total, account.sha256, true⟩, account.bytes.list⟩ pages ∧
      pages.length = pagesLeft account pageBytes 0 ∧
      ∀ page ∈ pages, page.check = .ok () := by
  unfold CaptureSlot.withPageBytes at hslot
  split at hslot
  next hsize =>
    cases hslot
    have hmissing := account.length_pos
    have hsucc := pagesLeft_succ hsize.1 hmissing
    obtain ⟨fuel, rfl⟩ : ∃ less, fuel = less + 1 := ⟨fuel - 1, by omega⟩
    obtain ⟨hcheck, haccept⟩ := @accept_page_at account 0 pageBytes .new hsize hmissing rfl
      (.inl ⟨rfl, rfl⟩)
    have hanswer := @answer_start _ _ _ _ scope account _ hclock
      ⟨pageBytes, 0, none, none, hsize⟩ rfl 0
    have hthen : Midway scope account rounds (min account.bytes.list.length (0 + pageBytes))
        ⟨pageBytes, 1, some ⟨1, scope, account, (rounds 0).deadline⟩, none, hsize⟩
        ⟨some ⟨1, account.total, account.sha256,
            min account.bytes.list.length (0 + pageBytes) = account.bytes.list.length⟩,
          account.bytes.list.take (min account.bytes.list.length (0 + pageBytes))⟩ :=
      ⟨⟨_, rfl, fun index => (hclock index 0).1⟩, rfl, rfl, by omega, Nat.min_le_left _ _⟩
    obtain ⟨rest, htransfer, hlength, hchecks⟩ :=
      @transfer_midway _ _ _ _ _ _ _ hclock _ hsize fuel 1 _ _ _ [pageAt 1 account 0 pageBytes]
        hthen rfl (by omega)
    refine ⟨pageAt 1 account 0 pageBytes :: rest, ?_, ?_, ?_⟩
    · have hnext : PageAssembler.new.next = some .start := rfl
      change PageAssembler.new.accept (pageAt 1 account 0 pageBytes) = _ at haccept
      rw [transfer]
      simp only [hnext, CaptureSlot.new, hanswer, haccept, List.nil_append]
      exact htransfer
    · rw [List.length_cons, hlength, hsucc]
    · intro page hpage
      rcases List.mem_cons.mp hpage with rfl | hrest
      · exact hcheck
      · exact hchecks page hrest
  · cases hslot

/-- A full buffer with the stated hash passes every check of `finish` but those of the decoder. -/
theorem finish_complete {Account : Type} {sha256 : List UInt8 → Digest}
    {decode : List UInt8 → Except String Account} {snapshot : UInt64} {bytes : AccountBytes} :
    PageAssembler.finish sha256 decode
        ⟨some ⟨snapshot, (FrozenAccount.hashed sha256 bytes).total,
          (FrozenAccount.hashed sha256 bytes).sha256, true⟩, bytes.list⟩ =
      if (bytes.list.head?.toList ++ bytes.list.getLast?.toList).any isAsciiWhitespace then
        .error .whitespace
      else (decode bytes.list).mapError .decode := by
  have hreceived :
      PageAssembler.received ⟨some ⟨snapshot, (FrozenAccount.hashed sha256 bytes).total,
        (FrozenAccount.hashed sha256 bytes).sha256, true⟩, bytes.list⟩ =
      (FrozenAccount.hashed sha256 bytes).total := rfl
  rw [PageAssembler.finish, hreceived, Option.filter_some, decide_eq_true rfl, if_pos rfl]
  simp only [FrozenAccount.hashed, ne_eq, not_true_eq_false, if_false]

end Loop

/-- The transfer delivers the frozen account: as many rounds as pages, no error from either
side, and a buffer of exactly the frozen bytes. -/
theorem transfer_delivers {Scope Instant Account : Type} [LinearOrder Instant]
    [DecidableEq Scope] (sha256 : List UInt8 → Digest)
    (decode : List UInt8 → Except String Account) (bytes : AccountBytes) (pageBytes : Nat)
    (slot : CaptureSlot Scope Instant) (scope : Scope) (rounds : Nat → Round Instant)
    (fuel : Nat) (hsize : CaptureSlot.withPageBytes pageBytes = .ok slot)
    (hclock : Prompt rounds) (hfuel : (bytes.list.length + pageBytes - 1) / pageBytes ≤ fuel) :
    ∃ assembler pages,
      transfer scope (.hashed sha256 bytes) rounds fuel 0 slot .new [] =
        .finished assembler pages ∧
      assembler.next = none ∧
      pages.length = (bytes.list.length + pageBytes - 1) / pageBytes ∧
      (∀ page ∈ pages, page.check = .ok ()) ∧
      assembler.buffer = bytes.list ∧
      -- The length and the hash agree, so what remains is the content's own business.
      assembler.finish sha256 decode =
        if (bytes.list.head?.toList ++ bytes.list.getLast?.toList).any isAsciiWhitespace then
          .error .whitespace
        else (decode bytes.list).mapError .decode := by
  obtain ⟨pages, htransfer, hlength, hchecks⟩ :=
    @transfer_new _ _ _ _ scope (.hashed sha256 bytes) _ hclock _ _ _ hsize hfuel
  exact ⟨_, pages, htransfer, rfl, hlength, hchecks, rfl, finish_complete⟩

theorem sampleBytes_nonempty : ([1, 2, 3] : List UInt8) ≠ [] := by decide

theorem sampleBytes_allocated : ([1, 2, 3] : List UInt8).length < 2 ^ 63 := by decide

def sampleBytes : AccountBytes := ⟨[1, 2, 3], sampleBytes_nonempty, sampleBytes_allocated⟩

def sampleSlot : CaptureSlot String Nat := ⟨2, 0, none, none, by decide⟩

/-- Three bytes in pages of two, with a clock that never moves. -/
theorem transfer_delivers_three :
    ∃ assembler pages,
      transfer "viewer" (.hashed (fun _ => ⟨.replicate 32 7⟩) sampleBytes)
          (fun _ => ⟨5, 0, 0⟩) 2 0 sampleSlot .new [] =
        .finished assembler pages ∧
      assembler.next = none ∧
      pages.length = 2 ∧
      (∀ page ∈ pages, page.check = .ok ()) ∧
      assembler.buffer = [1, 2, 3] ∧
      assembler.finish (fun _ => ⟨.replicate 32 7⟩) (fun bytes => .ok bytes) =
        .ok [1, 2, 3] :=
  transfer_delivers (fun _ => ⟨.replicate 32 7⟩) (fun bytes => .ok bytes) sampleBytes 2 sampleSlot
    "viewer" (fun _ => ⟨5, 0, 0⟩) 2 rfl (fun _ _ => ⟨Nat.succ_pos 4, Nat.succ_pos 4⟩) (by decide)

end Plasmosome.Paging
