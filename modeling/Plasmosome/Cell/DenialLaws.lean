import Plasmosome.Cell.Denial

/-!
# What a denial book accounts for

A record either counts its denial for a later line or issues the next line.
Hence every denial is on a line or on the count the next line will carry, the
bounds hold at every point, and the waiting lines are the last lines issued.
-/

namespace Plasmosome.Cell

open Foundation Backend Serde

/-! ## What a record does -/

/-- What entries are told apart by. -/
def Entry.key (entry : Entry) : Option PluginId × Reach := (entry.plasmid, entry.reach)

namespace DenialBook

variable {floatText : UInt64 → List Char} {book : DenialBook} {plasmid : Option PluginId}
  {reach : Reach}

/-- Entries whose denial was counted: the same denials, or one more where there was room, and
none with more lines than its limit. -/
structure Counted (book : DenialBook) (plasmid : Option PluginId) (reach : Reach)
    (entries : List Entry) : Prop where
  keys : entries.map Entry.key = book.entries.map Entry.key ∨
    book.hasRoom plasmid = true ∧ (plasmid, reach) ∉ book.entries.map Entry.key ∧
      entries.map Entry.key = book.entries.map Entry.key ++ [(plasmid, reach)]
  lines : (∀ entry ∈ book.entries, entry.lines ≤ book.limits.linesPerDenial) →
    ∀ entry ∈ entries, entry.lines ≤ book.limits.linesPerDenial

/-- A line that may be queued next. -/
structure Issuable (floatText : UInt64 → List Char) (book : DenialBook) (pending : PendingLine) :
    Prop where
  seq : pending.line.seq.toNat = book.lastSeq.toNat + 1
  unlogged : pending.line.unlogged = book.unlogged
  waiting : book.waiting.length < book.limits.waiting
  issued : book.issued < book.limits.linesPerCell
  payload : (logEvent book.cell pending.wire).size floatText ≤ 1024

/-- Everything a record can do: count the denial for a later line, with no entry for it or
with one, or issue the next line. -/
inductive Recorded (floatText : UInt64 → List Char) (book : DenialBook)
    (plasmid : Option PluginId) (reach : Reach) : DenialBook → Prop where
  | refused : Recorded floatText book plasmid reach book.suppress
  | suppressed (entries : List Entry) (hcounted : book.Counted plasmid reach entries) :
      Recorded floatText book plasmid reach { book.suppress with entries }
  | issued (entries : List Entry) (pending : PendingLine)
      (hcounted : book.Counted plasmid reach entries)
      (hissuable : book.Issuable floatText pending) :
      Recorded floatText book plasmid reach
        { book with
          entries
          waiting := book.waiting ++ [pending]
          issued := book.issued + 1
          lastSeq := book.lastSeq + 1
          unlogged := 0 }

theorem entryAt_eq_some {before after : List Entry} {found : Entry}
    (hentry : book.entryAt plasmid reach = some (before, found, after)) :
    found.key = (plasmid, reach) ∧
      (book.entries = before ++ found :: after ∨
        book.hasRoom plasmid = true ∧ (plasmid, reach) ∉ book.entries.map Entry.key ∧
          before = book.entries ∧ after = [] ∧ found.lines = 0) := by
  unfold entryAt at hentry
  split at hentry
  next index hindex =>
    obtain ⟨hbound, hfound, -⟩ := List.findIdx?_eq_some_iff_getElem.mp hindex
    rw [List.getElem?_eq_getElem hbound] at hentry
    cases hentry
    refine ⟨by simpa [Entry.key] using hfound, Or.inl ?_⟩
    rw [List.getElem_cons_drop, List.take_append_drop]
  next hnone =>
    split at hentry
    next hroom =>
      cases hentry
      refine ⟨rfl, Or.inr ⟨hroom, ?_, rfl, rfl, rfl⟩⟩
      intro hmem
      obtain ⟨entry, hentry, hkey⟩ := List.mem_map.mp hmem
      have hmiss := List.findIdx?_eq_none_iff.mp hnone entry hentry
      cases hkey
      simp at hmiss
    next => cases hentry

/-- An entry replaced by one for the same denial, with no more lines than its limit. -/
theorem Counted.of_entryAt {before after : List Entry} {found entry : Entry}
    (hentry : book.entryAt plasmid reach = some (before, found, after))
    (hkey : entry.key = found.key)
    (hlines : found.lines ≤ book.limits.linesPerDenial →
      entry.lines ≤ book.limits.linesPerDenial) :
    book.Counted plasmid reach (before ++ entry :: after) := by
  obtain ⟨hfound, hplace | ⟨hroom, hnew, rfl, rfl, hzero⟩⟩ := entryAt_eq_some hentry
  · refine ⟨Or.inl ?_, fun hall other hother => ?_⟩
    · simp [hplace, hkey]
    · have hhere : entry.lines ≤ book.limits.linesPerDenial :=
        hlines (hall found (by simp [hplace]))
      rcases List.mem_append.mp hother with hbefore | hrest
      · exact hall other (by simp [hplace, hbefore])
      · rcases List.mem_cons.mp hrest with rfl | hafter
        · exact hhere
        · exact hall other (by simp [hplace, hafter])
  · refine ⟨Or.inr ⟨hroom, hnew, by simp [hkey, hfound]⟩, fun hall other hother => ?_⟩
    have hhere : entry.lines ≤ book.limits.linesPerDenial := by
      refine hlines ?_
      rw [hzero]
      exact UInt32.zero_le
    rcases List.mem_append.mp hother with hbefore | hlast
    · exact hall other hbefore
    · exact (List.mem_singleton.mp hlast) ▸ hhere

theorem record_recorded (book : DenialBook) (plasmid : Option PluginId) (reach : Reach)
    (atMs : UInt64) :
    book.Recorded floatText plasmid reach (book.record floatText plasmid reach atMs) := by
  unfold record
  split
  next => exact .refused
  next before found after hentry =>
    dsimp only
    split
    next =>
      exact .suppressed _ (Counted.of_entryAt hentry rfl fun h => h)
    next hspent =>
      simp only [spent, Bool.or_eq_true, decide_eq_true_eq, not_or, UInt32.not_le, not_le]
        at hspent
      obtain ⟨⟨⟨hlines, hissued⟩, hwaiting⟩, hseq⟩ := hspent
      split
      next =>
        exact .suppressed _ (Counted.of_entryAt hentry rfl fun h => h)
      next hpayload =>
        refine .issued _ _ (Counted.of_entryAt hentry rfl fun _ => ?_) ?_
        · rw [UInt32.le_iff_toNat_le]
          rw [UInt32.lt_iff_toNat_lt] at hlines
          have hlimit := book.limits.linesPerDenial.toNat_lt
          have hadd : (found.lines + 1).toNat = found.lines.toNat + 1 := by
            rw [UInt32.toNat_add]
            simp only [UInt32.reduceToNat]
            omega
          change (found.lines + 1).toNat ≤ _
          omega
        · refine ⟨?_, rfl, hwaiting, hissued, Nat.le_of_not_lt hpayload⟩
          have hbound := book.lastSeq.toNat_lt
          have hmax : book.lastSeq.toNat ≠ UInt64.size - 1 := by
            intro heq
            refine hseq ?_
            rw [← heq, UInt64.ofNat_toNat]
          change (book.lastSeq + 1).toNat = _
          rw [UInt64.toNat_add]
          simp only [UInt64.reduceToNat, UInt64.size] at *
          omega

/-! ## Bounds -/

/-- The bounds a book keeps at every point. -/
structure Bounded (floatText : UInt64 → List Char) (book : DenialBook) : Prop where
  waiting : book.waiting.length ≤ book.limits.waiting
  issued : book.issued ≤ book.limits.linesPerCell
  lines : ∀ entry ∈ book.entries, entry.lines ≤ book.limits.linesPerDenial
  named : book.entries.countP (fun entry => entry.plasmid.isSome) ≤ book.limits.named
  perPlasmid : ∀ plasmid, book.entries.countP (fun entry => entry.plasmid = some plasmid) ≤
    book.limits.perPlasmid
  unnamed : book.entries.countP (fun entry => entry.plasmid = none) ≤ book.limits.unnamed
  distinct : (book.entries.map Entry.key).Nodup
  payload : ∀ pending ∈ book.waiting, (logEvent book.cell pending.wire).size floatText ≤ 1024

/-- How many entries have a plasmid of a kind is read off their keys. -/
theorem countP_entries (entries : List Entry) (kind : Option PluginId → Bool) :
    entries.countP (fun entry => kind entry.plasmid) =
      (entries.map Entry.key).countP fun key => kind key.1 := by
  rw [List.countP_map]
  rfl

/-- A count of plasmids of one kind stays in a limit that a room test checks first. -/
theorem Counted.countP_le {entries : List Entry} (hcounted : book.Counted plasmid reach entries)
    {kind : Option PluginId → Bool} {limit : Nat}
    (hbook : book.entries.countP (fun entry => kind entry.plasmid) ≤ limit)
    (hroom : book.hasRoom plasmid = true → kind plasmid = true →
      book.entries.countP (fun entry => kind entry.plasmid) < limit) :
    entries.countP (fun entry => kind entry.plasmid) ≤ limit := by
  rw [countP_entries] at hbook ⊢
  rcases hcounted.keys with hsame | ⟨hfits, -, hmore⟩
  · rw [hsame]
    exact hbook
  · rw [hmore, List.countP_append, List.countP_singleton]
    cases hkind : kind plasmid with
    | false => simpa [hkind] using hbook
    | true =>
        have hless := hroom hfits hkind
        rw [countP_entries] at hless
        simpa [hkind] using hless

theorem Counted.distinct {entries : List Entry} (hcounted : book.Counted plasmid reach entries)
    (hbook : (book.entries.map Entry.key).Nodup) : (entries.map Entry.key).Nodup := by
  rcases hcounted.keys with hsame | ⟨-, hnew, hmore⟩
  · rw [hsame]
    exact hbook
  · rw [hmore]
    exact List.nodup_append.mpr ⟨hbook, List.nodup_singleton _, fun key hkey other hother heq =>
      hnew ((List.mem_singleton.mp hother) ▸ heq ▸ hkey)⟩

/-- Counting a denial keeps every bound on the entries. -/
theorem Bounded.counted {entries : List Entry} (hbook : Bounded floatText book)
    (hcounted : book.Counted plasmid reach entries) :
    Bounded floatText { book with entries } where
  waiting := hbook.waiting
  issued := hbook.issued
  lines := hcounted.lines hbook.lines
  named := by
    refine @Counted.countP_le _ _ _ _ hcounted Option.isSome _ hbook.named fun hroom hkind => ?_
    simp only [hasRoom, hkind, if_true, Bool.and_eq_true, decide_eq_true_eq] at hroom
    exact hroom.2
  perPlasmid owner := by
    refine @Counted.countP_le _ _ _ _ hcounted (fun plasmid => decide (plasmid = some owner)) _
      (hbook.perPlasmid owner) fun hroom hkind => ?_
    cases of_decide_eq_true hkind
    simp only [hasRoom, Option.isSome_some, if_true, Bool.and_eq_true, decide_eq_true_eq] at hroom
    exact hroom.1
  unnamed := by
    refine @Counted.countP_le _ _ _ _ hcounted (fun plasmid => decide (plasmid = none)) _
      hbook.unnamed fun hroom hkind => ?_
    cases of_decide_eq_true hkind
    simpa [hasRoom] using hroom
  distinct := hcounted.distinct hbook.distinct
  payload := hbook.payload

theorem Bounded.recorded (hbook : Bounded floatText book) {next : DenialBook}
    (hrecorded : book.Recorded floatText plasmid reach next) : Bounded floatText next := by
  cases hrecorded with
  | refused => exact ⟨hbook.1, hbook.2, hbook.3, hbook.4, hbook.5, hbook.6, hbook.7, hbook.8⟩
  | suppressed entries hcounted =>
      have hentries := hbook.counted hcounted
      exact ⟨hentries.1, hentries.2, hentries.3, hentries.4, hentries.5, hentries.6, hentries.7,
        hentries.8⟩
  | issued entries pending hcounted hissuable =>
      have hentries := hbook.counted hcounted
      refine ⟨?_, ?_, hentries.lines, hentries.named, hentries.perPlasmid, hentries.unnamed,
        hentries.distinct, ?_⟩
      · rw [List.length_append, List.length_singleton]
        exact hissuable.waiting
      · have hless := hissuable.issued
        have hlimit := book.limits.linesPerCell.toNat_lt
        rw [UInt32.lt_iff_toNat_lt] at hless
        rw [UInt32.le_iff_toNat_le]
        change (book.issued + 1).toNat ≤ _
        rw [UInt32.toNat_add]
        simp only [UInt32.reduceToNat]
        omega
      · intro other hother
        rcases List.mem_append.mp hother with hold | hnew
        · exact hbook.payload other hold
        · rw [List.mem_singleton.mp hnew]
          exact hissuable.payload

/-- A page with no book or another book's id changes nothing. -/
theorem page_of_ne (book : DenialBook) {id : Option Uuid} (hid : id ≠ some book.id)
    (after : UInt64) : (book.page id after).2 = book := if_neg hid

theorem Bounded.page (hbook : Bounded floatText book) (id : Option Uuid) (after : UInt64) :
    Bounded floatText (book.page id after).2 := by
  by_cases hid : id = some book.id
  · have hpage : (book.page id after).2 =
        { book with waiting := book.waiting.filter fun pending => after < pending.line.seq } :=
      if_pos hid
    rw [hpage]
    exact ⟨(List.length_filter_le _ _).trans hbook.waiting, hbook.issued, hbook.lines, hbook.named,
      hbook.perPlasmid, hbook.unnamed, hbook.distinct,
      fun pending hpending => hbook.payload pending (List.mem_filter.mp hpending).1⟩
  · rw [page_of_ne book hid]
    exact hbook

theorem Bounded.forget (hbook : Bounded floatText book) (plasmid : PluginId) :
    Bounded floatText (book.forget plasmid) := by
  have hsub : (book.forget plasmid).entries.Sublist book.entries := List.filter_sublist
  exact ⟨hbook.waiting, hbook.issued, fun entry hentry => hbook.lines entry (hsub.subset hentry),
    (hsub.countP_le).trans hbook.named, fun owner => (hsub.countP_le).trans
    (hbook.perPlasmid owner),
    (hsub.countP_le).trans hbook.unnamed, hbook.distinct.sublist (hsub.map _), hbook.payload⟩

theorem bounded_new (cell : CellId) (id : Uuid) (limits : DenialLimits) :
    Bounded floatText (new cell id limits) := by
  constructor <;> simp [new]

/-! ## Accounting -/

/-- What a call issues: the lines it puts behind those that were waiting. -/
def issuedBetween (book next : DenialBook) : List DenialLine :=
  (next.waiting.drop book.waiting.length).map PendingLine.wire

/-- The denials a line accounts for: its own and those suppressed before it. -/
def accounted (issued : List DenialLine) : Nat :=
  (issued.map fun line => line.unlogged.toNat + 1).sum

/-- A record adds one denial to the issued lines or to the count, unless the count was full. -/
theorem Recorded.accounts {next : DenialBook}
    (hrecorded : book.Recorded floatText plasmid reach next)
    (hroom : ¬(book.unlogged.toNat = UInt64.size - 1 ∧ next.unlogged = book.unlogged)) :
    book.unlogged.toNat + 1 = accounted (book.issuedBetween next) + next.unlogged.toNat := by
  have hsuppress : ∀ other : DenialBook, other.waiting = book.waiting →
      other.unlogged = saturatingAdd book.unlogged 1 →
      ¬(book.unlogged.toNat = UInt64.size - 1 ∧ other.unlogged = book.unlogged) →
      book.unlogged.toNat + 1 = accounted (book.issuedBetween other) + other.unlogged.toNat := by
    intro other hwaiting hunlogged hroom
    have hadd := toNat_saturatingAdd book.unlogged 1
    have hbound := book.unlogged.toNat_lt
    have hnone : book.issuedBetween other = [] := by simp [issuedBetween, hwaiting]
    rw [hnone, hunlogged, hadd]
    have hne : book.unlogged.toNat ≠ UInt64.size - 1 := by
      intro hfull
      refine hroom ⟨hfull, ?_⟩
      rw [hunlogged]
      refine UInt64.toNat_inj.mp ?_
      rw [hadd, hfull]
      rfl
    simp only [accounted, List.map_nil, List.sum_nil, UInt64.reduceToNat, UInt64.size] at *
    omega
  cases hrecorded with
  | refused => exact hsuppress _ rfl rfl hroom
  | suppressed entries => exact hsuppress _ rfl rfl hroom
  | issued entries pending _ hissuable =>
      simp [issuedBetween, accounted, PendingLine.wire, hissuable.unlogged]

theorem Recorded.seqs {next : DenialBook}
    (hrecorded : book.Recorded floatText plasmid reach next) :
    (book.issuedBetween next).map (fun line => line.seq.toNat) =
        List.range' (book.lastSeq.toNat + 1) (book.issuedBetween next).length ∧
      next.lastSeq.toNat = book.lastSeq.toNat + (book.issuedBetween next).length ∧
      next.issued.toNat = book.issued.toNat + (book.issuedBetween next).length ∧
      next.waiting.map PendingLine.wire =
        book.waiting.map PendingLine.wire ++ book.issuedBetween next := by
  cases hrecorded with
  | refused => simp [issuedBetween, suppress]
  | suppressed entries => simp [issuedBetween, suppress]
  | issued entries pending _ hissuable =>
      have hseq := hissuable.seq
      have hissued := hissuable.issued
      have hlast := book.lastSeq.toNat_lt
      have hpending := pending.line.seq.toNat_lt
      have hlimit := book.limits.linesPerCell.toNat_lt
      rw [UInt32.lt_iff_toNat_lt] at hissued
      refine ⟨?_, ?_, ?_, ?_⟩
      · simp [issuedBetween, PendingLine.wire, hseq]
      · simp only [issuedBetween, List.drop_left, List.map_cons, List.map_nil, List.length_cons,
          List.length_nil, UInt64.toNat_add, UInt64.reduceToNat]
        omega
      · simp only [issuedBetween, List.drop_left, List.map_cons, List.map_nil, List.length_cons,
          List.length_nil, UInt32.toNat_add, UInt32.reduceToNat]
        omega
      · simp [issuedBetween]

/-- A record leaves what a book was made with as it was. -/
theorem Recorded.made {next : DenialBook} (hrecorded : book.Recorded floatText plasmid reach next) :
    next.cell = book.cell ∧ next.id = book.id ∧ next.limits = book.limits := by
  cases hrecorded <;> exact ⟨rfl, rfl, rfl⟩

theorem page_made (book : DenialBook) (id : Option Uuid) (after : UInt64) :
    (book.page id after).2.cell = book.cell ∧ (book.page id after).2.id = book.id ∧
      (book.page id after).2.limits = book.limits := by
  simp only [page, acknowledge]
  split <;> exact ⟨rfl, rfl, rfl⟩

end DenialBook

/-! ## Runs of a book -/

section Runs

variable {floatText : UInt64 → List Char}

def DenialCall.isRecord : DenialCall → Bool
  | .record .. => true
  | .page .. | .forget .. => false

/-- The lines issued along a run of any machine that holds a book. -/
def issuedAlong {State Input Output : Type} (machine : Machine State Input Output)
    (book : State → DenialBook) : State → List Input → List DenialLine
  | _, [] => []
  | state, input :: rest =>
      (book state).issuedBetween (book (machine.step state input).2) ++
        issuedAlong machine book (machine.step state input).2 rest

/-- The lines a list of calls on a book issues. -/
def issuedLines (floatText : UInt64 → List Char) (book : DenialBook) (calls : List DenialCall) :
    List DenialLine :=
  issuedAlong (denialBooks floatText) id book calls

/-- No record finds the count of suppressed denials full and leaves it so. -/
def Unsaturated (floatText : UInt64 → List Char) : DenialBook → List DenialCall → Prop
  | _, [] => True
  | book, call :: rest =>
      let next := ((denialBooks floatText).step book call).2
      (call.isRecord = true →
        ¬(book.unlogged.toNat = UInt64.size - 1 ∧ next.unlogged = book.unlogged)) ∧
      Unsaturated floatText next rest

theorem DenialBook.Bounded.step {book : DenialBook} (hbook : book.Bounded floatText)
    (call : DenialCall) : ((denialBooks floatText).step book call).2.Bounded floatText := by
  cases call with
  | record plasmid reach atMs =>
      exact hbook.recorded (book.record_recorded plasmid reach atMs)
  | page id after => exact hbook.page id after
  | forget plasmid => exact hbook.forget plasmid

theorem issuedBetween_page (book : DenialBook) (id : Option Uuid) (after : UInt64) :
    book.issuedBetween (book.page id after).2 = [] := by
  have hlength : (book.page id after).2.waiting.length ≤ book.waiting.length := by
    by_cases hid : id = some book.id
    · have hpage : (book.page id after).2 =
          { book with waiting := book.waiting.filter fun pending => after < pending.line.seq } :=
        if_pos hid
      rw [hpage]
      exact List.length_filter_le _ _
    · rw [book.page_of_ne hid]
  rw [DenialBook.issuedBetween, List.drop_of_length_le hlength]
  rfl

theorem issuedBetween_forget (book : DenialBook) (plasmid : PluginId) :
    book.issuedBetween (book.forget plasmid) = [] := by
  simp [DenialBook.issuedBetween, DenialBook.forget]

/-- A page leaves the counters as they were. -/
theorem page_counters (book : DenialBook) (id : Option Uuid) (after : UInt64) :
    (book.page id after).2.unlogged = book.unlogged ∧
      (book.page id after).2.lastSeq = book.lastSeq ∧
      (book.page id after).2.issued = book.issued := by
  simp only [DenialBook.page, DenialBook.acknowledge]
  split <;> exact ⟨rfl, rfl, rfl⟩

theorem forget_counters (book : DenialBook) (plasmid : PluginId) :
    (book.forget plasmid).unlogged = book.unlogged ∧
      (book.forget plasmid).lastSeq = book.lastSeq ∧
      (book.forget plasmid).issued = book.issued := ⟨rfl, rfl, rfl⟩

/-- Every record of a run is a line or is on the count a line of the run or the next one
carries. -/
theorem run_accounts (calls : List DenialCall) (book : DenialBook)
    (hroom : Unsaturated floatText book calls) :
    book.unlogged.toNat + calls.countP DenialCall.isRecord =
      DenialBook.accounted (issuedLines floatText book calls) +
        ((denialBooks floatText).final book calls).unlogged.toNat := by
  induction calls generalizing book with
  | nil => simp [issuedLines, issuedAlong, DenialBook.accounted]
  | cons call rest ih =>
      obtain ⟨hcall, hrest⟩ := hroom
      have hlater := ih _ hrest
      have hsplit : DenialBook.accounted (issuedLines floatText book (call :: rest)) =
          DenialBook.accounted
              (book.issuedBetween ((denialBooks floatText).step book call).2) +
            DenialBook.accounted
              (issuedLines floatText ((denialBooks floatText).step book call).2 rest) := by
        simp [issuedLines, issuedAlong, DenialBook.accounted]
      have hnow : book.unlogged.toNat + (if call.isRecord then 1 else 0) =
          DenialBook.accounted (book.issuedBetween ((denialBooks floatText).step book call).2) +
            ((denialBooks floatText).step book call).2.unlogged.toNat := by
        cases call with
        | record plasmid reach atMs =>
            exact (book.record_recorded plasmid reach atMs).accounts (hcall rfl)
        | page id after =>
            have hcounters := page_counters book id after
            simp [denialBooks, issuedBetween_page, DenialCall.isRecord, DenialBook.accounted,
              hcounters.1]
        | forget plasmid =>
            have hcounters := forget_counters book plasmid
            simp [denialBooks, issuedBetween_forget, DenialCall.isRecord, DenialBook.accounted,
              hcounters.1]
      rw [List.countP_cons, hsplit, Machine.final_cons]
      omega

/-- The lines of a run are numbered on from the last one before it. -/
theorem run_seqs (calls : List DenialCall) (book : DenialBook) :
    (issuedLines floatText book calls).map (fun line => line.seq.toNat) =
        List.range' (book.lastSeq.toNat + 1) (issuedLines floatText book calls).length ∧
      ((denialBooks floatText).final book calls).issued.toNat =
        book.issued.toNat + (issuedLines floatText book calls).length := by
  induction calls generalizing book with
  | nil => simp [issuedLines, issuedAlong]
  | cons call rest ih =>
      have hstep : (book.issuedBetween ((denialBooks floatText).step book call).2).map
            (fun line => line.seq.toNat) = List.range' (book.lastSeq.toNat + 1)
            (book.issuedBetween ((denialBooks floatText).step book call).2).length ∧
          ((denialBooks floatText).step book call).2.lastSeq.toNat = book.lastSeq.toNat +
            (book.issuedBetween ((denialBooks floatText).step book call).2).length ∧
          ((denialBooks floatText).step book call).2.issued.toNat = book.issued.toNat +
            (book.issuedBetween ((denialBooks floatText).step book call).2).length := by
        cases call with
        | record plasmid reach atMs =>
            obtain ⟨hseqs, hlast, hissued, -⟩ :=
              DenialBook.Recorded.seqs (book.record_recorded plasmid reach atMs)
            exact ⟨hseqs, hlast, hissued⟩
        | page id after =>
            have hcounters := page_counters book id after
            simp [denialBooks, issuedBetween_page, hcounters]
        | forget plasmid =>
            have hcounters := forget_counters book plasmid
            simp [denialBooks, issuedBetween_forget, hcounters]
      obtain ⟨hseqs, hlast, hissued⟩ := hstep
      obtain ⟨hlater, hcount⟩ := ih ((denialBooks floatText).step book call).2
      have hlines : issuedLines floatText book (call :: rest) =
          book.issuedBetween ((denialBooks floatText).step book call).2 ++
            issuedLines floatText ((denialBooks floatText).step book call).2 rest := rfl
      refine ⟨?_, ?_⟩
      · rw [hlines, List.map_append, hseqs, hlater, List.length_append, hlast, Nat.add_right_comm,
          List.range'_append_1]
      · rw [hlines, List.length_append, Machine.final_cons, hcount, hissued, Nat.add_assoc]

theorem run_made (calls : List DenialCall) (book : DenialBook) :
    ((denialBooks floatText).final book calls).cell = book.cell ∧
      ((denialBooks floatText).final book calls).id = book.id ∧
      ((denialBooks floatText).final book calls).limits = book.limits := by
  refine @Machine.final_invariant _ _ _ (denialBooks floatText) (fun next =>
    next.cell = book.cell ∧ next.id = book.id ∧
      next.limits = book.limits) ?_ _ ⟨rfl, rfl, rfl⟩ calls
  rintro next call ⟨hcell, hid, hlimits⟩
  rw [← hcell, ← hid, ← hlimits]
  cases call with
  | record plasmid reach atMs =>
      exact DenialBook.Recorded.made (next.record_recorded plasmid reach atMs)
  | page id after => exact next.page_made id after
  | forget plasmid => exact ⟨rfl, rfl, rfl⟩

end Runs

end Plasmosome.Cell
