import Plasmosome.Paging.Assembler

/-!
# What an assembler holds

Whatever pages arrive, the accepted ones state one account, lie back to back
from offset zero, and are exactly the buffer.
-/

namespace Plasmosome.Paging

open Foundation Backend

namespace PageAssembler

/-- The pages of a run that were accepted, in order. -/
def accepted : PageAssembler → List ObservationPage → List ObservationPage
  | _, [] => []
  | assembler, page :: rest =>
      let (reply, next) := assembler.accept page
      (if reply = .ok () then [page] else []) ++ accepted next rest

/-- The accepted pages state one account, lie back to back, and are the buffer. -/
structure Holds (assembler : PageAssembler) (pages : List ObservationPage) : Prop where
  buffer : assembler.buffer = pages.flatMap ObservationPage.bytes
  empty : assembler.started = none → pages = []
  stated : ∀ started, assembler.started = some started →
    pages ≠ [] ∧
      (∀ page ∈ pages, page.snapshot = started.snapshot ∧ page.total = started.total ∧
        page.sha256 = started.sha256) ∧
      assembler.buffer.length ≤ started.total.toNat ∧
      (started.complete = true ↔ assembler.buffer.length = started.total.toNat)
  backToBack : ∀ (index : Nat) (hindex : index < pages.length),
    pages[index].offset.toNat =
      ((pages.take index).flatMap ObservationPage.bytes).length

theorem holds_new : new.Holds [] := ⟨rfl, fun _ => rfl, nofun, nofun⟩

namespace Holds

variable {assembler : PageAssembler} {pages : List ObservationPage}

/-- The byte count fits in 64 bits, so the offset it is compared with is exact. -/
theorem toNat_received (hholds : assembler.Holds pages) :
    assembler.received.toNat = assembler.buffer.length := by
  apply toNat_ofNat_of_fits
  cases hstarted : assembler.started with
  | none =>
      rw [hholds.buffer, hholds.empty hstarted]
      decide
  | some started =>
      obtain ⟨-, -, hwithin, -⟩ := hholds.stated started hstarted
      exact Nat.lt_of_le_of_lt hwithin started.total.toNat_lt

/-- What an admitted page must be, given the pages before it. -/
theorem of_admits {page : ObservationPage} (hholds : assembler.Holds pages)
    (hadmits : assembler.admits page = .ok ()) :
    page.WellFormed ∧ page.offset.toNat = assembler.buffer.length ∧
      ∀ started, assembler.started = some started → started.complete = false ∧
        page.snapshot = started.snapshot ∧ page.total = started.total ∧
        page.sha256 = started.sha256 := by
  unfold admits at hadmits
  split at hadmits
  · cases hadmits
  next hcheck =>
    have hwellFormed := ObservationPage.check_eq_ok_iff.mp hcheck
    split at hadmits
    next hnone =>
      rw [refuse_unless_eq_ok, ne_eq, not_not] at hadmits
      refine ⟨hwellFormed, ?_, ?_⟩
      · rw [hadmits, hholds.buffer, hholds.empty hnone]
        rfl
      · rw [hnone]
        exact nofun
    next started hstarted =>
      unfold follows at hadmits
      split at hadmits
      · cases hadmits
      next hincomplete =>
        split at hadmits
        · cases hadmits
        next hsnapshot =>
          split at hadmits
          · cases hadmits
          next htotal =>
            split at hadmits
            · cases hadmits
            next hhash =>
              rw [refuse_unless_eq_ok, ne_eq, not_not] at hadmits
              refine ⟨hwellFormed, ?_, ?_⟩
              · rw [hadmits]
                exact hholds.toNat_received
              · rw [hstarted]
                rintro _ ⟨⟩
                exact ⟨Bool.not_eq_true _ ▸ hincomplete, not_not.mp hsnapshot,
                  not_not.mp htotal, not_not.mp hhash⟩

/-- An admitted page extends the pages and the buffer alike. -/
theorem extend {page : ObservationPage} (hholds : assembler.Holds pages)
    (hadmits : assembler.admits page = .ok ()) :
    Holds ⟨some ⟨page.snapshot, page.total, page.sha256, page.complete⟩,
      assembler.buffer ++ page.bytes⟩ (pages ++ [page]) := by
  obtain ⟨hwellFormed, hoffset, hsame⟩ := hholds.of_admits hadmits
  have hlength : (assembler.buffer ++ page.bytes).length =
      page.offset.toNat + page.bytes.length := by
    rw [List.length_append, hoffset]
  refine ⟨?_, nofun, ?_, ?_⟩
  · rw [List.flatMap_append, hholds.buffer]
    simp
  · rintro _ ⟨⟩
    refine ⟨by simp, ?_, ?_, ?_⟩
    · intro other hother
      rcases List.mem_append.mp hother with hearlier | hnew
      · cases hstarted : assembler.started with
        | none =>
            rw [hholds.empty hstarted] at hearlier
            cases hearlier
        | some started =>
            obtain ⟨-, hsnapshot, htotal, hhash⟩ := hsame started hstarted
            obtain ⟨-, hall, -, -⟩ := hholds.stated started hstarted
            rw [hsnapshot, htotal, hhash]
            exact hall other hearlier
      · rw [List.mem_singleton.mp hnew]
        exact ⟨rfl, rfl, rfl⟩
    · rw [hlength]
      exact hwellFormed.within
    · rw [hlength]
      exact hwellFormed.complete
  · intro index hindex
    rw [List.length_append, List.length_singleton] at hindex
    by_cases hearlier : index < pages.length
    · rw [List.getElem_append_left hearlier, List.take_append_of_le_length hearlier.le]
      exact hholds.backToBack index hearlier
    · have hlast : index = pages.length := by omega
      subst hlast
      rw [List.getElem_append_right (Nat.le_refl _), List.take_left', ← hholds.buffer]
      · simpa using hoffset
      · rfl

/-- A run from a state that holds its pages holds those and the pages accepted since. -/
theorem run (hholds : assembler.Holds pages) (arriving : List ObservationPage) :
    (machine.final assembler arriving).Holds (pages ++ accepted assembler arriving) := by
  induction arriving generalizing assembler pages with
  | nil => simpa [accepted] using hholds
  | cons page rest ih =>
      rw [Machine.final_cons, accepted]
      change (machine.final (assembler.accept page).2 rest).Holds
        (pages ++ ((if (assembler.accept page).1 = .ok () then [page] else []) ++
          accepted (assembler.accept page).2 rest))
      cases hadmits : assembler.admits page with
      | error fault =>
          have haccept : assembler.accept page = (.error fault, assembler) := by
            rw [accept, hadmits]
          rw [haccept]
          simpa using ih hholds
      | ok _ =>
          have haccept : assembler.accept page = (.ok (),
              ⟨some ⟨page.snapshot, page.total, page.sha256, page.complete⟩,
                assembler.buffer ++ page.bytes⟩) := by
            rw [accept, hadmits]
          rw [haccept]
          simpa using ih (hholds.extend hadmits)

end Holds

/-- A refused page changes nothing. -/
theorem accept_of_error {assembler : PageAssembler} {page : ObservationPage}
    {fault : AssemblyFault} (hrefused : (assembler.accept page).1 = .error fault) :
    (assembler.accept page).2 = assembler := by
  unfold accept at hrefused ⊢
  split
  · rfl
  next hadmits =>
    rw [hadmits] at hrefused
    cases hrefused

namespace Holds

variable {assembler : PageAssembler} {pages : List ObservationPage}

/-- The transfer is over exactly when the buffer has the stated length. -/
theorem next_eq_none_iff (hholds : assembler.Holds pages) :
    assembler.next = none ↔ ∃ page ∈ pages, assembler.buffer.length = page.total.toNat := by
  unfold next
  cases hstarted : assembler.started with
  | none => simp [hholds.empty hstarted]
  | some started =>
      obtain ⟨hpages, hall, -, hcomplete⟩ := hholds.stated started hstarted
      obtain ⟨page, hpage⟩ := List.exists_mem_of_ne_nil pages hpages
      have hnone : (if started.complete then none else some (PageCursor.mk started.snapshot
          assembler.received)) = none ↔ assembler.buffer.length = started.total.toNat := by
        rw [← hcomplete]
        split <;> simp_all
      rw [hnone]
      constructor
      · intro hlength
        exact ⟨page, hpage, by rw [hlength, (hall page hpage).2.1]⟩
      · rintro ⟨other, hother, hlength⟩
        rw [hlength, (hall other hother).2.1]

/-- After the last byte every page is refused. -/
theorem refuses_of_next_eq_none (hnext : assembler.next = none) (page : ObservationPage) :
    ∃ fault, (assembler.accept page).1 = .error fault := by
  have hcomplete : ∃ started, assembler.started = some started ∧ started.complete = true := by
    unfold next at hnext
    split at hnext
    · cases hnext
    next started hstarted =>
      split at hnext
      next hdone => exact ⟨started, hstarted, hdone⟩
      · cases hnext
  obtain ⟨started, hstarted, hdone⟩ := hcomplete
  unfold accept admits
  cases page.check with
  | error fault => exact ⟨_, rfl⟩
  | ok _ =>
      rw [hstarted]
      simp only [follows, hdone, if_true]
      exact ⟨_, rfl⟩

/-- A finished account has the stated length and hash and no surrounding whitespace. -/
theorem of_finish {Account : Type} {sha256 : List UInt8 → Digest}
    {decode : List UInt8 → Except String Account} {account : Account}
    (hholds : assembler.Holds pages) (hfinish : assembler.finish sha256 decode = .ok account) :
    ∃ page ∈ pages, assembler.buffer.length = page.total.toNat ∧
      sha256 assembler.buffer = page.sha256 ∧
      (∀ byte ∈ assembler.buffer.head?, isAsciiWhitespace byte = false) ∧
      ∀ byte ∈ assembler.buffer.getLast?, isAsciiWhitespace byte = false := by
  unfold finish at hfinish
  split at hfinish
  · cases hfinish
  next started hstarted =>
    obtain ⟨hstated, hreceived⟩ := Option.filter_eq_some_iff.mp hstarted
    obtain ⟨hpages, hall, -, -⟩ := hholds.stated started hstated
    obtain ⟨page, hpage⟩ := List.exists_mem_of_ne_nil pages hpages
    obtain ⟨-, htotal, hhash⟩ := hall page hpage
    have hlength : assembler.buffer.length = page.total.toNat := by
      rw [htotal, ← of_decide_eq_true hreceived, hholds.toNat_received]
    dsimp only at hfinish
    split at hfinish
    · cases hfinish
    next hcomputed =>
      split at hfinish
      · cases hfinish
      next hbytes =>
        rw [Bool.not_eq_true, List.any_append, Bool.or_eq_false_iff] at hbytes
        refine ⟨page, hpage, hlength, (not_not.mp hcomputed).trans hhash.symm, ?_, ?_⟩
        · intro byte hbyte
          have hhead := hbytes.1
          rw [Option.mem_def.mp hbyte] at hhead
          simpa using hhead
        · intro byte hbyte
          have hlast := hbytes.2
          rw [Option.mem_def.mp hbyte] at hlast
          simpa using hlast

end Holds

/-- Whatever pages arrive, an assembler holds exactly what the accepted pages state. -/
theorem assembled_exactly {Account : Type} (sha256 : List UInt8 → Digest)
    (decode : List UInt8 → Except String Account) (arriving : List ObservationPage) :
    let assembler := machine.final new arriving
    let pages := accepted new arriving
    (∀ page fault, (assembler.accept page).1 = .error fault →
        (assembler.accept page).2 = assembler) ∧
      -- The accepted pages state one account and lie back to back.
      (∀ page ∈ pages, ∀ other ∈ pages,
        page.snapshot = other.snapshot ∧ page.total = other.total ∧
          page.sha256 = other.sha256) ∧
      (∀ (index : Nat) (hindex : index < pages.length),
        pages[index].offset.toNat =
          ((pages.take index).flatMap ObservationPage.bytes).length) ∧
      assembler.buffer = pages.flatMap ObservationPage.bytes ∧
      (∀ page ∈ pages, assembler.buffer.length ≤ page.total.toNat) ∧
      -- The end of the transfer, after which nothing more is accepted.
      (assembler.next = none ↔ ∃ page ∈ pages, assembler.buffer.length = page.total.toNat) ∧
      (assembler.next = none → ∀ page, ∃ fault, (assembler.accept page).1 = .error fault) ∧
      (∀ account, assembler.finish sha256 decode = .ok account →
        ∃ page ∈ pages, assembler.buffer.length = page.total.toNat ∧
          sha256 assembler.buffer = page.sha256 ∧
          (∀ byte ∈ assembler.buffer.head?, isAsciiWhitespace byte = false) ∧
          ∀ byte ∈ assembler.buffer.getLast?, isAsciiWhitespace byte = false) ∧
      -- The arithmetic of `check` and `accept` is exact for every 64-bit field.
      (∀ page : ObservationPage, (page.check = .ok () ↔ page.WellFormed) ∧
        (∀ offset len, page.check = .error (.offsetOverflow offset len) →
          2 ^ 64 ≤ page.offset.toNat + page.bytes.length) ∧
        ∀ «end» total, page.check = .error (.beyondTotal «end» total) →
          «end».toNat = page.offset.toNat + page.bytes.length) ∧
      assembler.received.toNat = assembler.buffer.length := by
  intro assembler pages
  have hholds : assembler.Holds pages := holds_new.run arriving
  refine ⟨fun page fault => accept_of_error, ?_, hholds.backToBack, hholds.buffer, ?_,
    hholds.next_eq_none_iff, Holds.refuses_of_next_eq_none, fun account => hholds.of_finish,
    fun page => ⟨page.check_eq_ok_iff, page.check_sum_exact⟩, hholds.toNat_received⟩
  · intro page hpage other hother
    cases hstarted : assembler.started with
    | none =>
        rw [hholds.empty hstarted] at hpage
        cases hpage
    | some started =>
        obtain ⟨-, hall, -, -⟩ := hholds.stated started hstarted
        obtain ⟨hsnapshot, htotal, hhash⟩ := hall page hpage
        obtain ⟨hsnapshot', htotal', hhash'⟩ := hall other hother
        exact ⟨hsnapshot.trans hsnapshot'.symm, htotal.trans htotal'.symm,
          hhash.trans hhash'.symm⟩
  · intro page hpage
    cases hstarted : assembler.started with
    | none =>
        rw [hholds.empty hstarted] at hpage
        cases hpage
    | some started =>
        obtain ⟨-, hall, hwithin, -⟩ := hholds.stated started hstarted
        rw [(hall page hpage).2.1]
        exact hwithin

end PageAssembler

end Plasmosome.Paging
