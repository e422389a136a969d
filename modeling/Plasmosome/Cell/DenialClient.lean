import Plasmosome.Cell.DenialLaws

/-!
# A client of a denial book

A client acknowledges the last line it was shown each time it asks for a page.
Whatever is recorded, forgotten or looked at in between, what it was shown is
always the first lines issued, and an empty page means it was shown them all.
-/

namespace Plasmosome.Cell

open Foundation Backend Serde

/-- A book and every line its client was shown, in order. -/
structure Client where
  book : DenialBook
  shown : List DenialLine

/-- What happens to a book with one client: denials, detaches, looks by others that
acknowledge nothing, and the client's own polls. -/
inductive ClientCall (id : Uuid) where
  | record (plasmid : Option PluginId) (reach : Reach) (atMs : UInt64)
  | forget (plasmid : PluginId)
  | look (other : { other : Option Uuid // other ≠ some id }) (after : UInt64)
  | poll

namespace Client

/-- The highest sequence number shown, zero at first. -/
def highest (shown : List DenialLine) : UInt64 :=
  shown.foldl (fun high line => max high line.seq) 0

/-- The lines a poll shows. -/
def polled (client : Client) (id : Uuid) : List DenialLine :=
  (client.book.page (some id) (highest client.shown)).1.lines

end Client

/-- A book and its client answering calls. A poll answers with the lines it shows. -/
def clients (floatText : UInt64 → List Char) (id : Uuid) :
    Machine Client (ClientCall id) (List DenialLine) where
  step client
    | .record plasmid reach atMs =>
        ([], { client with book := client.book.record floatText plasmid reach atMs })
    | .forget plasmid => ([], { client with book := client.book.forget plasmid })
    | .look other after => ([], { client with book := (client.book.page other after).2 })
    | .poll =>
        (client.polled id,
          { book := (client.book.page (some id) (Client.highest client.shown)).2
            shown := client.shown ++ client.polled id })

/-- A client of a new book. -/
def Client.new (cell : CellId) (id : Uuid) (limits : DenialLimits) : Client :=
  ⟨DenialBook.new cell id limits, []⟩

/-! ## Sequence numbers -/

/-- Lines numbered one by one after a number. -/
def Numbered (start : Nat) (lines : List DenialLine) : Prop :=
  lines.map (fun line => line.seq.toNat) = List.range' (start + 1) lines.length

theorem Numbered.cons {start : Nat} {line : DenialLine} {rest : List DenialLine}
    (hlines : Numbered start (line :: rest)) :
    line.seq.toNat = start + 1 ∧ Numbered (start + 1) rest := by
  rw [Numbered, List.map_cons, List.length_cons, List.range'_succ] at hlines
  exact List.cons.inj hlines

theorem Numbered.append {start : Nat} {first second : List DenialLine}
    (hfirst : Numbered start first) (hsecond : Numbered (start + first.length) second) :
    Numbered start (first ++ second) := by
  unfold Numbered at *
  rw [List.map_append, hfirst, hsecond, List.length_append, Nat.add_right_comm,
    List.range'_append_1]

theorem Numbered.take {start : Nat} {lines : List DenialLine} (hlines : Numbered start lines)
    (count : Nat) : Numbered start (lines.take count) := by
  induction count generalizing start lines with
  | zero => rfl
  | succ count ih =>
      cases lines with
      | nil => rfl
      | cons line rest =>
          obtain ⟨hline, hrest⟩ := hlines.cons
          have htail := ih hrest
          unfold Numbered at htail ⊢
          rw [List.take_succ_cons, List.map_cons, List.length_cons, List.range'_succ, hline, htail]

/-- The lines past a number are those after the ones it counts. -/
theorem Numbered.filter {start : Nat} {lines : List DenialLine} (hlines : Numbered start lines)
    {after : UInt64} (hafter : start ≤ after.toNat) :
    lines.filter (fun line => after < line.seq) = lines.drop (after.toNat - start) := by
  induction lines generalizing start with
  | nil => simp
  | cons line rest ih =>
      obtain ⟨hline, hrest⟩ := hlines.cons
      by_cases hpast : start < after.toNat
      · have hold : ¬after < line.seq := by
          rw [UInt64.lt_iff_toNat_lt, hline]
          omega
        have hdrop : after.toNat - start = (after.toNat - (start + 1)) + 1 := by omega
        rw [List.filter_cons_of_neg (by simpa using hold), ih hrest hpast, hdrop,
          List.drop_succ_cons]
      · -- from the first line past the number on, every line is past it
        have heq : after.toNat = start := by omega
        have hall : ∀ other ∈ line :: rest, after < other.seq := by
          intro other hother
          have hmem : other.seq.toNat ∈ (line :: rest).map fun line => line.seq.toNat :=
            List.mem_map_of_mem hother
          rw [hlines] at hmem
          obtain ⟨hlow, -⟩ := List.mem_range'_1.mp hmem
          rw [UInt64.lt_iff_toNat_lt]
          omega
        rw [List.filter_eq_self.mpr (fun other hother => by simpa using hall other hother), heq,
          Nat.sub_self, List.drop_zero]

theorem Numbered.highest {lines : List DenialLine} (hlines : Numbered 0 lines) :
    (Client.highest lines).toNat = lines.length := by
  have hfold : ∀ (lines : List DenialLine) (high : UInt64), Numbered high.toNat lines →
      (lines.foldl (fun high line => max high line.seq) high).toNat =
        high.toNat + lines.length := by
    intro lines
    induction lines with
    | nil =>
        intro high _
        rfl
    | cons line rest ih =>
        intro high hlines
        obtain ⟨hline, hrest⟩ := hlines.cons
        have hle : high ≤ line.seq := by
          rw [UInt64.le_iff_toNat_le]
          omega
        have hmax : max high line.seq = line.seq := if_pos hle
        rw [List.foldl_cons, hmax, ih line.seq (by rw [hline]; exact hrest), hline,
          List.length_cons]
        omega
  simpa [Client.highest] using hfold lines 0 hlines

/-! ## What a client was shown -/

/-- A client of the lines issued so far: it was shown the first of them, and the book still
holds all those after some it has acknowledged. -/
structure Client.Follows (id : Uuid) (issued : List DenialLine) (client : Client) : Prop where
  id : client.book.id = id
  numbered : Numbered 0 issued
  lastSeq : client.book.lastSeq.toNat = issued.length
  shown : client.shown <+: issued
  waiting : ∃ acked, acked ≤ client.shown.length ∧
    client.book.waiting.map PendingLine.wire = issued.drop acked

section Runs

variable {floatText : UInt64 → List Char} {id : Uuid} {issued : List DenialLine} {client : Client}

theorem Client.Follows.numbered_shown (hclient : client.Follows id issued) :
    Numbered 0 client.shown := by
  rw [List.prefix_iff_eq_take.mp hclient.shown]
  exact hclient.numbered.take _

/-- Acknowledging what was shown leaves exactly the lines that were not. -/
theorem Client.Follows.acknowledged (hclient : client.Follows id issued) :
    (client.book.page (some id) (Client.highest client.shown)).2.waiting.map PendingLine.wire =
      issued.drop client.shown.length := by
  obtain ⟨acked, hacked, hwaiting⟩ := hclient.waiting
  have hpage : (client.book.page (some id) (Client.highest client.shown)).2 =
      { client.book with
        waiting := client.book.waiting.filter fun pending =>
          Client.highest client.shown < pending.line.seq } :=
    if_pos (by rw [hclient.id])
  have hhighest := hclient.numbered_shown.highest
  have hdropped : Numbered acked (issued.drop acked) := by
    have hlength := hclient.shown.length_le
    unfold Numbered
    rw [List.map_drop, hclient.numbered, List.drop_range', List.length_drop]
    congr 1
    omega
  have hfilter : (client.book.waiting.filter fun pending =>
      Client.highest client.shown < pending.line.seq).map PendingLine.wire =
      (client.book.waiting.map PendingLine.wire).filter fun line =>
        Client.highest client.shown < line.seq := by
    rw [List.filter_map]
    rfl
  rw [hpage, hfilter, hwaiting, hdropped.filter (by omega), hhighest, List.drop_drop]
  congr 1
  omega

theorem Client.Follows.polled (hclient : client.Follows id issued) :
    client.polled id = (issued.drop client.shown.length).take client.book.limits.page := by
  rw [← hclient.acknowledged, ← List.map_take]
  rfl

/-- Each call adds the lines it issues to those a client follows. -/
theorem Client.Follows.step (hclient : client.Follows id issued) (call : ClientCall id) :
    ((clients floatText id).step client call).2.Follows id
      (issued ++ client.book.issuedBetween ((clients floatText id).step client call).2.book) := by
  obtain ⟨acked, hacked, hwaiting⟩ := hclient.waiting
  have hlength := hclient.shown.length_le
  cases call with
  | record plasmid reach atMs =>
      have hrecorded := @DenialBook.record_recorded floatText client.book plasmid reach atMs
      obtain ⟨hseqs, hlast, -, hmore⟩ := hrecorded.seqs
      obtain ⟨-, hid, -⟩ := hrecorded.made
      refine ⟨hid.trans hclient.id, ?_, ?_, ?_, acked, hacked, ?_⟩
      · refine hclient.numbered.append ?_
        rw [Nat.zero_add, ← hclient.lastSeq]
        exact hseqs
      · rw [List.length_append, ← hclient.lastSeq]
        exact hlast
      · exact hclient.shown.trans (List.prefix_append _ _)
      · rw [List.drop_append_of_le_length (hacked.trans hlength), ← hwaiting]
        exact hmore
  | forget plasmid =>
      have hnone := issuedBetween_forget client.book plasmid
      simp only [clients]
      rw [hnone, List.append_nil]
      exact ⟨hclient.id, hclient.numbered, hclient.lastSeq, hclient.shown, acked, hacked, hwaiting⟩
  | look other after =>
      have hnone := issuedBetween_page client.book other after
      have hsame : (client.book.page other after).2 = client.book :=
        client.book.page_of_ne (by rw [hclient.id]; exact other.2) after
      simp only [clients]
      rw [hnone, List.append_nil, hsame]
      exact ⟨hclient.id, hclient.numbered, hclient.lastSeq, hclient.shown, acked, hacked, hwaiting⟩
  | poll =>
      have hnone := issuedBetween_page client.book (some id) (Client.highest client.shown)
      have hcounters := page_counters client.book (some id) (Client.highest client.shown)
      have hacknowledged := hclient.acknowledged
      have hpolled := hclient.polled
      obtain ⟨-, hid, -⟩ := client.book.page_made (some id) (Client.highest client.shown)
      simp only [clients]
      rw [hnone, List.append_nil]
      refine ⟨hid.trans hclient.id, hclient.numbered, ?_, ?_, client.shown.length, ?_,
        hacknowledged⟩
      · rw [← hclient.lastSeq]
        exact congrArg UInt64.toNat hcounters.2.1
      · -- the lines shown next are the first of those not shown
        obtain ⟨rest, hrest⟩ := hclient.shown
        rw [hpolled, ← hrest, List.drop_left]
        exact List.prefix_append_right_inj _ |>.mpr (List.take_prefix _ _)
      · rw [List.length_append]
        exact Nat.le_add_right _ _

theorem Client.Follows.run (calls : List (ClientCall id)) (hclient : client.Follows id issued) :
    ((clients floatText id).final client calls).Follows id
      (issued ++ issuedAlong (clients floatText id) Client.book client calls) := by
  induction calls generalizing client issued with
  | nil => simpa [issuedAlong] using hclient
  | cons call rest ih =>
      rw [issuedAlong, ← List.append_assoc]
      exact ih (hclient.step call)

theorem follows_new (cell : CellId) (id : Uuid) (limits : DenialLimits) :
    (Client.new cell id limits).Follows id [] where
  id := rfl
  numbered := rfl
  lastSeq := rfl
  shown := List.prefix_refl _
  waiting := ⟨0, Nat.le_refl _, rfl⟩

theorem client_limits (calls : List (ClientCall id)) (client : Client) :
    ((clients floatText id).final client calls).book.limits = client.book.limits := by
  refine @Machine.final_invariant _ _ _ (clients floatText id)
    (fun next => next.book.limits = client.book.limits) ?_ _ rfl calls
  intro next call hlimits
  rw [← hlimits]
  cases call with
  | record plasmid reach atMs =>
      exact (@DenialBook.record_recorded floatText next.book plasmid reach atMs).made.2.2
  | forget plasmid => rfl
  | look other after => exact (next.book.page_made other after).2.2
  | poll => exact (next.book.page_made (some id) (Client.highest next.shown)).2.2

/-- An empty page of a positive size shows that nothing is left to show. -/
theorem Client.Follows.shown_all (hclient : client.Follows id issued)
    (hpage : 0 < client.book.limits.page) (hempty : client.polled id = []) :
    client.shown = issued := by
  rw [hclient.polled] at hempty
  have hnone : issued.drop client.shown.length = [] :=
    (List.take_eq_nil_iff.mp hempty).resolve_left (Nat.pos_iff_ne_zero.mp hpage)
  exact hclient.shown.eq_of_length_le (List.drop_eq_nil_iff.mp hnone)

/-- Each poll shows another line while one is left. -/
theorem Client.Follows.drained (polls : Nat) (hclient : client.Follows id issued)
    (hpage : 0 < client.book.limits.page) (hpolls : issued.length ≤ client.shown.length + polls) :
    ((clients floatText id).final client (List.replicate polls .poll)).shown = issued := by
  induction polls generalizing client with
  | zero => exact hclient.shown.eq_of_length_le hpolls
  | succ polls ih =>
      have hnone := issuedBetween_page client.book (some id) (Client.highest client.shown)
      have hnext := @Client.Follows.step floatText id issued client hclient .poll
      have hshown : ((clients floatText id).step client .poll).2.shown =
          client.shown ++ (issued.drop client.shown.length).take client.book.limits.page := by
        rw [← hclient.polled]
        rfl
      have hissued : client.book.issuedBetween ((clients floatText id).step client .poll).2.book =
          [] := hnone
      rw [hissued, List.append_nil] at hnext
      rw [List.replicate_succ, Machine.final_cons]
      refine ih hnext ?_ ?_
      · exact (client.book.page_made (some id) (Client.highest client.shown)).2.2 ▸ hpage
      · rw [hshown, List.length_append, List.length_take, List.length_drop]
        omega

end Runs

/-! ## The account of a book -/

/-- A book accounts for every denial and delivers each line once: each record is a line or on
the count of one, lines are numbered from one, the bounds hold at every point, a page with no
book or another one's changes nothing, and a client that acknowledges what it was shown is
shown the lines in order, and all of them once its pages of a positive size run empty. -/
theorem denialBook_accounts (floatText : UInt64 → List Char) (cell : CellId) (id : Uuid)
    (limits : DenialLimits) :
    (∀ calls : List DenialCall,
      let book := (denialBooks floatText).final (DenialBook.new cell id limits) calls
      let issued := issuedLines floatText (DenialBook.new cell id limits) calls
      (Unsaturated floatText (DenialBook.new cell id limits) calls →
        calls.countP DenialCall.isRecord =
          issued.length + (issued.map fun line => line.unlogged.toNat).sum +
            book.unlogged.toNat) ∧
      issued.map (fun line => line.seq.toNat) = List.range' 1 issued.length ∧
      book.issued.toNat = issued.length ∧
      book.cell = cell ∧ book.limits = limits ∧ book.Bounded floatText ∧
      ∀ other after, other ≠ some id → (book.page other after).2 = book) ∧
    ∀ events : List (ClientCall id),
      let client := (clients floatText id).final (Client.new cell id limits) events
      let issued := issuedAlong (clients floatText id) Client.book (Client.new cell id limits)
        events
      client.shown <+: issued ∧
      (0 < limits.page →
        (client.polled id = [] → client.shown = issued) ∧
        ∀ polls, issued.length ≤ polls →
          ((clients floatText id).final (Client.new cell id limits)
            (events ++ List.replicate polls .poll)).shown = issued) := by
  refine ⟨fun calls => ?_, fun events => ?_⟩
  · obtain ⟨hseqs, hissued⟩ := @run_seqs floatText calls (DenialBook.new cell id limits)
    obtain ⟨hcell, hid, hlimits⟩ := @run_made floatText calls (DenialBook.new cell id limits)
    refine ⟨fun hroom => ?_, hseqs, ?_, hcell, hlimits, ?_, fun other after hother => ?_⟩
    · have haccounts := run_accounts calls (DenialBook.new cell id limits) hroom
      have hsum : ∀ lines : List DenialLine, DenialBook.accounted lines =
          lines.length + (lines.map fun line => line.unlogged.toNat).sum := by
        intro lines
        rw [DenialBook.accounted, List.sum_map_add]
        simp [Nat.add_comm]
      rw [hsum] at haccounts
      simpa [DenialBook.new] using haccounts
    · simpa [DenialBook.new] using hissued
    · refine (denialBooks floatText).final_invariant (fun book call hbook => hbook.step call) ?_
        calls
      exact DenialBook.bounded_new cell id limits
    · exact DenialBook.page_of_ne _ (by rw [hid]; exact hother) after
  · have hfollows := @Client.Follows.run floatText id [] _ events (follows_new cell id limits)
    rw [List.nil_append] at hfollows
    have hlimits : ((clients floatText id).final (Client.new cell id limits) events).book.limits =
        limits := client_limits events _
    refine ⟨hfollows.shown, fun hpage => ⟨fun hempty => ?_, fun polls hpolls => ?_⟩⟩
    · exact hfollows.shown_all (by rw [hlimits]; exact hpage) hempty
    · rw [Machine.final_append]
      exact hfollows.drained polls (by rw [hlimits]; exact hpage) (by omega)

/-- Pages that show no lines: the client's first page is empty while a line waits. -/
def pagelessLimits : DenialLimits := ⟨16, 64, 32, 64, 4096, 256, 0⟩

/-- One unnamed denial, and then a poll. -/
def denialAndPoll : List (ClientCall 1) := [.record none (.host "h1.example.test") 7, .poll]

theorem pageless_client_is_shown_nothing :
    let client := (clients (fun _ => []) 1).final (Client.new ⟨"cell-1"⟩ 1 pagelessLimits)
      denialAndPoll
    client.polled 1 = [] ∧
      client.shown ≠ issuedAlong (clients (fun _ => []) 1) Client.book
        (Client.new ⟨"cell-1"⟩ 1 pagelessLimits) denialAndPoll := by
  decide +kernel

end Plasmosome.Cell
