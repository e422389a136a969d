import Plasmosome.Paging.Slot

/-!
# What a slot promises over its life

Everything is said of the calls of a run and their replies: which captures they
issued, and which deadlines they named for each. The slot's own fields only
enter through the invariant that ties them to that history.
-/

namespace Plasmosome.Paging

open Foundation Backend

/-- A capture a run issued, with the deadlines of the requests that named it since. -/
structure Issue (Scope Instant : Type) where
  snapshot : UInt64
  scope : Scope
  account : FrozenAccount
  deadlines : List Instant

section Calls

variable {Scope Instant Failure : Type}

/-- The cursor a call answers: a capture answers zero/zero. -/
def SlotCall.cursor : SlotCall Scope Instant Failure → PageCursor
  | .page _ cursor _ _ => cursor
  | .capture .. | .expire _ | .discard => .start

/-- The readings of the clock a call makes. -/
def SlotCall.readings : SlotCall Scope Instant Failure → List Instant
  | .capture _ _ before after _ => [before, after]
  | .page _ _ _ now | .expire now => [now]
  | .discard => []

def SlotCall.isCapture : SlotCall Scope Instant Failure → Bool
  | .capture .. => true
  | .page .. | .expire _ | .discard => false

variable [DecidableEq Scope]

/-- A request that names an issue with its scope adds its deadline. -/
def Issue.name (scope : Scope) (snapshot : UInt64) (deadline : Instant)
    (issue : Issue Scope Instant) : Issue Scope Instant :=
  if issue.snapshot = snapshot ∧ issue.scope = scope then
    { issue with deadlines := issue.deadlines ++ [deadline] }
  else issue

/-- The issues after one more call and its reply. -/
def record (history : List (Issue Scope Instant)) :
    SlotCall Scope Instant Failure × SlotReply Failure → List (Issue Scope Instant)
  | (.capture scope expires _ _ (.ok account), .capture (.ok page)) =>
      history ++ [⟨page.snapshot, scope, account, [expires]⟩]
  | (.page scope cursor requestExpires _, .page _) =>
      history.map (Issue.name scope cursor.snapshot requestExpires)
  | _ => history

/-- The issues of a run, in order. -/
def issues (past : List (SlotCall Scope Instant Failure × SlotReply Failure)) :
    List (Issue Scope Instant) :=
  past.foldl record []

@[simp] theorem issues_nil :
    issues ([] : List (SlotCall Scope Instant Failure × SlotReply Failure)) = [] := rfl

@[simp] theorem issues_concat (past : List (SlotCall Scope Instant Failure × SlotReply Failure))
    (entry : SlotCall Scope Instant Failure × SlotReply Failure) :
    issues (past ++ [entry]) = record (issues past) entry := by
  simp [issues]

namespace Issue

variable {scope : Scope} {snapshot : UInt64} {deadline : Instant} {issue : Issue Scope Instant}

@[simp] theorem name_snapshot : (issue.name scope snapshot deadline).snapshot = issue.snapshot := by
  unfold name
  split <;> rfl

@[simp] theorem name_scope : (issue.name scope snapshot deadline).scope = issue.scope := by
  unfold name
  split <;> rfl

@[simp] theorem name_account : (issue.name scope snapshot deadline).account = issue.account := by
  unfold name
  split <;> rfl

theorem name_self : (issue.name issue.scope issue.snapshot deadline).deadlines =
    issue.deadlines ++ [deadline] := by
  simp [name]

theorem name_of_not (hother : ¬ (issue.snapshot = snapshot ∧ issue.scope = scope)) :
    issue.name scope snapshot deadline = issue :=
  if_neg hother

end Issue

/-- A call never takes an issue away or changes what it is of. -/
theorem record_keeps {history : List (Issue Scope Instant)} {issue : Issue Scope Instant}
    (hissue : issue ∈ history)
    (entry : SlotCall Scope Instant Failure × SlotReply Failure) :
    ∃ kept ∈ record history entry,
      kept.snapshot = issue.snapshot ∧ kept.account = issue.account := by
  unfold record
  split
  · exact ⟨issue, List.mem_append_left _ hissue, rfl, rfl⟩
  next scope cursor requestExpires now result =>
    exact ⟨issue.name scope cursor.snapshot requestExpires, List.mem_map_of_mem hissue,
      Issue.name_snapshot, Issue.name_account⟩
  · exact ⟨issue, hissue, rfl, rfl⟩

end Calls

/-! ## What each call does -/

namespace CaptureSlot

variable {Scope Instant Failure : Type}

theorem end_of_held {slot : CaptureSlot Scope Instant} {held : Capture Scope Instant}
    (hheld : slot.current = some held) :
    slot.end = { slot with current := none, ended := some (held.snapshot, held.scope) } := by
  simp only [«end», hheld]

theorem end_of_empty {slot : CaptureSlot Scope Instant} (hempty : slot.current = none) :
    slot.end = slot := by
  simp only [«end», hempty]

variable [LinearOrder Instant]

/-- A capture call either serves a new snapshot before its deadline, or holds nothing. -/
theorem capture_cases (slot : CaptureSlot Scope Instant) (scope : Scope)
    (expires before after : Instant) (collected : Except Failure FrozenAccount) :
    (∃ account snapshot, collected = .ok account ∧ before < expires ∧ after < expires ∧
      checkedAdd slot.lastSnapshot 1 = some snapshot ∧
      slot.capture scope expires before after collected =
        (.ok (pageAt snapshot account 0 slot.pageBytes),
          { slot with
            lastSnapshot := snapshot
            current := some ⟨snapshot, scope, account, expires⟩
            ended := none })) ∨
    ∃ error, slot.capture scope expires before after collected =
      (.error error, { slot with current := none, ended := none }) := by
  unfold capture
  dsimp only
  split
  · exact .inr ⟨_, rfl⟩
  next hbefore =>
    split
    · exact .inr ⟨_, rfl⟩
    next account =>
      split
      · exact .inr ⟨_, rfl⟩
      next hafter =>
        split
        · exact .inr ⟨_, rfl⟩
        next snapshot hsnapshot =>
          exact .inl ⟨account, snapshot, rfl, lt_of_not_ge hbefore, lt_of_not_ge hafter,
            hsnapshot, rfl⟩

/-- `expire` keeps the slot or ends its capture. -/
theorem expire_cases (slot : CaptureSlot Scope Instant) (now : Instant) :
    slot.expire now = slot ∨ slot.expire now = slot.end := by
  unfold expire
  split
  · exact .inr rfl
  · exact .inl rfl

variable [DecidableEq Scope]

/-- A page call that does not name the held capture with its scope changes nothing. One that
does lowers the deadline, and then finds the capture over or serves from it. -/
theorem page_cases (slot : CaptureSlot Scope Instant) (scope : Scope) (cursor : PageCursor)
    (requestExpires now : Instant) :
    ((cursor.snapshot = 0 ∨ ∀ held, slot.current = some held →
        ¬ (held.snapshot = cursor.snapshot ∧ held.scope = scope)) ∧
      ∃ error, slot.page scope cursor requestExpires now = (.error error, slot)) ∨
    ∃ held, slot.current = some held ∧ cursor.snapshot = held.snapshot ∧ scope = held.scope ∧
      ((min held.expires requestExpires ≤ now ∧
          slot.page scope cursor requestExpires now = (.error .expired,
            { slot with current := none, ended := some (held.snapshot, held.scope) })) ∨
        (now < min held.expires requestExpires ∧
          (slot.page scope cursor requestExpires now).2 =
            { slot with current := some { held with
                expires := min held.expires requestExpires } } ∧
          ∀ page, (slot.page scope cursor requestExpires now).1 = .ok page →
            page = pageAt held.snapshot held.account cursor.offset slot.pageBytes)) := by
  unfold page
  dsimp only
  split
  next hzero => exact .inl ⟨.inl hzero, _, rfl⟩
  next hnonzero =>
    split
    next hnone =>
      have hother : ∀ held, slot.current = some held →
          ¬ (held.snapshot = cursor.snapshot ∧ held.scope = scope) := by
        intro held hheld hnamed
        rw [hheld, Option.filter_some, decide_eq_true hnamed.1, if_pos rfl] at hnone
        cases hnone
      refine .inl ⟨.inr hother, ?_⟩
      split
      · split
        · exact ⟨_, rfl⟩
        · split
          · exact ⟨_, rfl⟩
          · exact ⟨_, rfl⟩
      · exact ⟨_, rfl⟩
    next held hfiltered =>
      obtain ⟨hheld, hsnapshot⟩ := Option.filter_eq_some_iff.mp hfiltered
      have hsnapshot := of_decide_eq_true hsnapshot
      split
      next hscope =>
        refine .inl ⟨.inr ?_, _, rfl⟩
        intro other hother hnamed
        rw [hheld] at hother
        cases hother
        exact hscope hnamed.2
      next hscope =>
        refine .inr ⟨held, hheld, hsnapshot.symm, (not_not.mp hscope).symm, ?_⟩
        split
        next hover => exact .inl ⟨hover, rfl⟩
        next hlive =>
          refine .inr ⟨lt_of_not_ge hlive, ?_⟩
          split
          · exact ⟨rfl, nofun⟩
          · refine ⟨rfl, ?_⟩
            intro page hpage
            cases hpage
            rfl

/-- A page is only served from the capture held afterwards, at readings before its deadline. -/
theorem step_serves {slot : CaptureSlot Scope Instant} {call : SlotCall Scope Instant Failure}
    {page : ObservationPage} (hpage : (slot.step call).1.page? = some page) :
    ∃ held, (slot.step call).2.current = some held ∧
      page = pageAt held.snapshot held.account call.cursor.offset slot.pageBytes ∧
      (call.cursor = .start ∨ call.cursor.snapshot = held.snapshot) ∧
      ∀ reading ∈ call.readings, reading < held.expires := by
  cases call with
  | capture scope expires before after collected =>
      rcases slot.capture_cases scope expires before after collected with
        ⟨account, snapshot, rfl, hbefore, hafter, -, hcapture⟩ | ⟨error, hcapture⟩
      · simp only [step, hcapture, Prod.map] at hpage ⊢
        cases hpage
        refine ⟨_, rfl, rfl, .inl rfl, ?_⟩
        simp [SlotCall.readings, hbefore, hafter]
      · simp only [step, hcapture, Prod.map] at hpage
        cases hpage
  | page scope cursor requestExpires now =>
      rcases slot.page_cases scope cursor requestExpires now with
        ⟨-, error, hrefused⟩ | ⟨held, hheld, hsnapshot, rfl, ⟨-, hover⟩ | ⟨hlive, hnext, hserved⟩⟩
      · simp only [step, hrefused, Prod.map] at hpage
        cases hpage
      · simp only [step, hover, Prod.map] at hpage
        cases hpage
      · have hok : (slot.page held.scope cursor requestExpires now).1 = .ok page := by
          cases hresult : (slot.page held.scope cursor requestExpires now).1 with
          | error error =>
              simp only [step, Prod.map, hresult] at hpage
              cases hpage
          | ok other =>
              simp only [step, Prod.map, hresult] at hpage
              cases hpage
              rfl
        refine ⟨{ held with expires := min held.expires requestExpires }, ?_,
          hserved page hok, .inr hsnapshot, ?_⟩
        · simp only [step, Prod.map, hnext, id]
        · simpa [SlotCall.readings] using hlive
  | expire now => cases hpage
  | discard => cases hpage

/-! ### A slot that holds nothing -/

theorem step_of_empty {slot : CaptureSlot Scope Instant} (hempty : slot.current = none)
    {call : SlotCall Scope Instant Failure} (hcall : call.isCapture = false) :
    (slot.step call).2 = slot := by
  cases call with
  | capture scope expires before after collected => cases hcall
  | page scope cursor requestExpires now =>
      rcases slot.page_cases scope cursor requestExpires now with
        ⟨-, error, hrefused⟩ | ⟨held, hheld, -⟩
      · simp only [step, Prod.map, hrefused, id]
      · rw [hempty] at hheld
        cases hheld
  | expire now =>
      rcases slot.expire_cases now with hsame | hended
      · exact hsame
      · exact hended.trans (end_of_empty hempty)
  | discard => exact end_of_empty hempty

/-- Until the next capture call an empty slot stays as it is. -/
theorem final_of_empty {slot : CaptureSlot Scope Instant} (hempty : slot.current = none)
    {calls : List (SlotCall Scope Instant Failure)}
    (hcalls : ∀ call ∈ calls, call.isCapture = false) :
    (machine Scope Instant Failure).final slot calls = slot := by
  induction calls with
  | nil => rfl
  | cons call rest ih =>
      have hsame : ((machine Scope Instant Failure).step slot call).2 = slot :=
        step_of_empty hempty (hcalls call List.mem_cons_self)
      rw [Machine.final_cons, hsame]
      exact ih fun other hother => hcalls other (List.mem_cons_of_mem _ hother)

/-- A call other than a capture that drops the capture remembers which one it was. -/
theorem step_ends {slot : CaptureSlot Scope Instant} {held : Capture Scope Instant}
    (hheld : slot.current = some held) {call : SlotCall Scope Instant Failure}
    (hcall : call.isCapture = false) (hgone : (slot.step call).2.current = none) :
    (slot.step call).2.ended = some (held.snapshot, held.scope) := by
  cases call with
  | capture scope expires before after collected => cases hcall
  | page scope cursor requestExpires now =>
      change (slot.page scope cursor requestExpires now).2.current = none at hgone
      change (slot.page scope cursor requestExpires now).2.ended = _
      rcases slot.page_cases scope cursor requestExpires now with
        ⟨-, error, hrefused⟩ | ⟨other, hother, -, -, ⟨-, hover⟩ | ⟨-, hnext, -⟩⟩
      · rw [hrefused, hheld] at hgone
        cases hgone
      · rw [hheld] at hother
        cases hother
        rw [hover]
      · rw [hnext] at hgone
        cases hgone
  | expire now =>
      change (slot.expire now).current = none at hgone
      change (slot.expire now).ended = _
      rcases slot.expire_cases now with hsame | hended
      · rw [hsame, hheld] at hgone
        cases hgone
      · rw [hended, end_of_held hheld]
  | discard =>
      change slot.end.ended = _
      rw [end_of_held hheld]

/-- What a slot that holds nothing answers, given the capture it remembers. -/
theorem page_of_ended {slot : CaptureSlot Scope Instant} (hempty : slot.current = none)
    {snapshot : UInt64} {owner : Scope} (hended : slot.ended = some (snapshot, owner))
    (scope : Scope) {cursor : PageCursor} (hcursor : cursor.snapshot ≠ 0)
    (requestExpires now : Instant) :
    slot.page scope cursor requestExpires now =
      (.error (if cursor.snapshot = snapshot then
          if scope = owner then .expired else .scopeChanged cursor.snapshot
        else .unknownSnapshot cursor.snapshot), slot) := by
  simp only [page, hcursor, if_false, hempty, Option.filter_none, hended]
  by_cases hnamed : cursor.snapshot = snapshot
  · by_cases hscope : scope = owner
    · simp [hnamed, hscope]
    · have hother : owner ≠ scope := fun hsame => hscope hsame.symm
      simp [hnamed, hscope, hother]
  · have hother : snapshot ≠ cursor.snapshot := fun hsame => hnamed hsame.symm
    simp [hnamed, hother]

/-- What a slot that holds a capture answers a request for another. -/
theorem page_of_other {slot : CaptureSlot Scope Instant} {held : Capture Scope Instant}
    (hheld : slot.current = some held) (hended : slot.ended = none) (scope : Scope)
    {cursor : PageCursor} (hcursor : cursor.snapshot ≠ 0)
    (hother : cursor.snapshot ≠ held.snapshot) (requestExpires now : Instant) :
    slot.page scope cursor requestExpires now =
      (.error (.unknownSnapshot cursor.snapshot), slot) := by
  have hnone : slot.current.filter (fun held => held.snapshot = cursor.snapshot) = none := by
    rw [hheld, Option.filter_some, decide_eq_false hother.symm]
    rfl
  simp only [page, hcursor, if_false, hnone, hended]

end CaptureSlot

/-! ## The slot follows its history -/

/-- The counter counts the issues, and the held capture is one of them, due at the earliest of
the deadlines that named it. -/
structure Follows {Scope Instant : Type} [LinearOrder Instant] (pageBytes : Nat)
    (slot : CaptureSlot Scope Instant) (history : List (Issue Scope Instant)) : Prop where
  pageBytes : slot.pageBytes = pageBytes
  counter : slot.lastSnapshot.toNat = history.length
  numbered : history.map (fun issue => issue.snapshot.toNat) = List.range' 1 history.length
  held : ∀ capture, slot.current = some capture → ∃ issue ∈ history,
    issue.snapshot = capture.snapshot ∧ issue.scope = capture.scope ∧
      issue.account = capture.account ∧ capture.expires ∈ issue.deadlines ∧
      ∀ deadline ∈ issue.deadlines, capture.expires ≤ deadline
  exclusive : ∀ capture, slot.current = some capture → slot.ended = none

namespace Follows

variable {Scope Instant Failure : Type} [LinearOrder Instant] {pageBytes : Nat}
  {slot : CaptureSlot Scope Instant} {history : List (Issue Scope Instant)}

theorem first (hslot : CaptureSlot.withPageBytes pageBytes = .ok slot) :
    Follows pageBytes slot [] := by
  unfold CaptureSlot.withPageBytes at hslot
  split at hslot
  · cases hslot
    exact ⟨rfl, rfl, rfl, nofun, nofun⟩
  · cases hslot

/-- No two issues share a snapshot. -/
theorem unique (hfollows : Follows pageBytes slot history) {issue other : Issue Scope Instant}
    (hissue : issue ∈ history) (hother : other ∈ history)
    (hsnapshot : issue.snapshot = other.snapshot) : issue = other := by
  have hnodup : (history.map fun issue => issue.snapshot.toNat).Nodup := by
    rw [hfollows.numbered]
    exact List.nodup_range'
  exact List.inj_on_of_nodup_map hnodup hissue hother (by rw [hsnapshot])

/-- No issue has snapshot zero. -/
theorem snapshot_ne_zero (hfollows : Follows pageBytes slot history)
    {issue : Issue Scope Instant} (hissue : issue ∈ history) : issue.snapshot ≠ 0 := by
  intro hzero
  have hmem : issue.snapshot.toNat ∈ List.range' 1 history.length := by
    rw [← hfollows.numbered]
    exact List.mem_map_of_mem hissue
  rw [List.mem_range'_1, hzero] at hmem
  exact absurd hmem.1 (by decide)

/-- The issues stay numbered when requests only add deadlines. -/
theorem numbered_name [DecidableEq Scope] (hfollows : Follows pageBytes slot history)
    (scope : Scope) (snapshot : UInt64) (deadline : Instant) :
    (history.map (Issue.name scope snapshot deadline)).map
        (fun issue => issue.snapshot.toNat) =
      List.range' 1 (history.map (Issue.name scope snapshot deadline)).length := by
  rw [List.map_map, List.length_map, ← hfollows.numbered]
  apply List.map_congr_left
  intro issue _
  rw [Function.comp_apply, Issue.name_snapshot]

/-- Dropping the capture keeps the rest. -/
theorem dropped (hfollows : Follows pageBytes slot history) (ended : Option (UInt64 × Scope)) :
    Follows pageBytes { slot with current := none, ended } history :=
  ⟨hfollows.pageBytes, hfollows.counter, hfollows.numbered, nofun, nofun⟩

theorem of_end (hfollows : Follows pageBytes slot history) :
    Follows pageBytes slot.end history := by
  cases hcurrent : slot.current with
  | none =>
      rw [CaptureSlot.end_of_empty hcurrent]
      exact hfollows
  | some held =>
      rw [CaptureSlot.end_of_held hcurrent]
      exact hfollows.dropped _

/-- A new capture is one more issue, under the next snapshot. -/
theorem captured (hfollows : Follows pageBytes slot history) {scope : Scope}
    {account : FrozenAccount} {expires : Instant} {snapshot : UInt64}
    (hsnapshot : checkedAdd slot.lastSnapshot 1 = some snapshot) :
    Follows pageBytes
      { slot with
        lastSnapshot := snapshot
        current := some ⟨snapshot, scope, account, expires⟩
        ended := none }
      (history ++ [⟨snapshot, scope, account, [expires]⟩]) := by
  have hnext : snapshot.toNat = history.length + 1 := by
    rw [checkedAdd_eq_some.mp hsnapshot, hfollows.counter]
    rfl
  refine ⟨hfollows.pageBytes, ?_, ?_, ?_, fun _ _ => rfl⟩
  · rw [List.length_append, List.length_singleton]
    exact hnext
  · rw [List.map_append, hfollows.numbered, List.length_append, List.length_singleton,
      List.range'_concat, List.map_singleton, hnext, Nat.one_mul, Nat.add_comm 1]
  · intro capture hcapture
    cases hcapture
    exact ⟨_, List.mem_append_right _ (List.mem_singleton.mpr rfl), rfl, rfl, rfl,
      List.mem_singleton.mpr rfl, fun deadline hdeadline =>
        (List.mem_singleton.mp hdeadline).ge⟩

variable [DecidableEq Scope]

/-- A request that does not name the held capture with its scope leaves it due when it was. -/
theorem passedOver (hfollows : Follows pageBytes slot history) {scope : Scope}
    {snapshot : UInt64} {deadline : Instant}
    (hother : snapshot = 0 ∨ ∀ held, slot.current = some held →
      ¬ (held.snapshot = snapshot ∧ held.scope = scope)) :
    Follows pageBytes slot (history.map (Issue.name scope snapshot deadline)) := by
  refine ⟨hfollows.pageBytes, ?_, hfollows.numbered_name scope snapshot deadline, ?_,
    hfollows.exclusive⟩
  · rw [List.length_map]
    exact hfollows.counter
  · intro capture hcapture
    obtain ⟨issue, hissue, hsnapshot, hscope, haccount, hdue, hearliest⟩ :=
      hfollows.held capture hcapture
    have hunnamed : issue.name scope snapshot deadline = issue := by
      apply Issue.name_of_not
      rintro ⟨hnamed, hsame⟩
      rcases hother with hzero | hnot
      · exact hfollows.snapshot_ne_zero hissue (hnamed.trans hzero)
      · exact hnot capture hcapture ⟨hsnapshot ▸ hnamed, hscope ▸ hsame⟩
    refine ⟨issue, ?_, hsnapshot, hscope, haccount, hdue, hearliest⟩
    rw [← hunnamed]
    exact List.mem_map_of_mem hissue

/-- A request that names the held capture with its scope lowers its deadline alike. -/
theorem named (hfollows : Follows pageBytes slot history) {held : Capture Scope Instant}
    (hheld : slot.current = some held) (deadline : Instant) :
    Follows pageBytes
      { slot with current := some { held with expires := min held.expires deadline } }
      (history.map (Issue.name held.scope held.snapshot deadline)) := by
  refine ⟨hfollows.pageBytes, ?_, hfollows.numbered_name _ _ _, ?_, ?_⟩
  · rw [List.length_map]
    exact hfollows.counter
  · intro capture hcapture
    cases hcapture
    obtain ⟨issue, hissue, hsnapshot, hscope, haccount, hdue, hearliest⟩ :=
      hfollows.held held hheld
    refine ⟨issue.name held.scope held.snapshot deadline, List.mem_map_of_mem hissue, ?_⟩
    rw [← hsnapshot, ← hscope, Issue.name_self]
    refine ⟨Issue.name_snapshot, Issue.name_scope, Issue.name_account.trans haccount, ?_, ?_⟩
    · rcases min_choice held.expires deadline with hmin | hmin
      · rw [hmin]
        exact List.mem_append_left _ hdue
      · rw [hmin]
        exact List.mem_append_right _ (List.mem_singleton.mpr rfl)
    · intro other hother
      rcases List.mem_append.mp hother with hbefore | hnew
      · exact (min_le_left _ _).trans (hearliest other hbefore)
      · rw [List.mem_singleton.mp hnew]
        exact min_le_right _ _
  · intro capture _
    exact hfollows.exclusive held hheld

/-- One step keeps the slot following its history. -/
theorem step (hfollows : Follows pageBytes slot history)
    (call : SlotCall Scope Instant Failure) :
    Follows pageBytes (slot.step call).2 (record history (call, (slot.step call).1)) := by
  cases call with
  | capture scope expires before after collected =>
      rcases slot.capture_cases scope expires before after collected with
        ⟨account, snapshot, rfl, -, -, hsnapshot, hcapture⟩ | ⟨error, hcapture⟩
      · simp only [CaptureSlot.step, hcapture, Prod.map]
        exact hfollows.captured hsnapshot
      · simp only [CaptureSlot.step, hcapture, Prod.map]
        have hsame : record history (.capture scope expires before after collected,
            .capture (.error error)) = history := by
          cases collected <;> rfl
        rw [hsame]
        exact hfollows.dropped none
  | page scope cursor requestExpires now =>
      change Follows pageBytes (slot.page scope cursor requestExpires now).2
        (history.map (Issue.name scope cursor.snapshot requestExpires))
      rcases slot.page_cases scope cursor requestExpires now with
        ⟨hother, error, hpage⟩ | ⟨held, hheld, hsnapshot, rfl, hnamed⟩
      · rw [hpage]
        exact hfollows.passedOver hother
      · rw [hsnapshot]
        have hlowered := hfollows.named hheld requestExpires
        rcases hnamed with ⟨-, hpage⟩ | ⟨-, hpage, -⟩
        · rw [hpage]
          exact hlowered.dropped _
        · rw [hpage]
          exact hlowered
  | expire now =>
      change Follows pageBytes (slot.expire now) history
      rcases slot.expire_cases now with hsame | hended
      · rw [hsame]
        exact hfollows
      · rw [hended]
        exact hfollows.of_end
  | discard => exact hfollows.of_end

/-- A served page is a slice of an issue's account, at readings before every deadline that
named the issue. -/
theorem served (hfollows : Follows pageBytes slot history)
    {call : SlotCall Scope Instant Failure} {page : ObservationPage}
    (hpage : (slot.step call).1.page? = some page) :
    ∃ issue ∈ record history (call, (slot.step call).1),
      page = pageAt issue.snapshot issue.account call.cursor.offset pageBytes ∧
      (call.cursor = .start ∨ call.cursor.snapshot = issue.snapshot) ∧
      ∀ reading ∈ call.readings, ∀ deadline ∈ issue.deadlines, reading < deadline := by
  obtain ⟨held, hheld, hslice, hcursor, hreadings⟩ := CaptureSlot.step_serves hpage
  obtain ⟨issue, hissue, hsnapshot, -, haccount, -, hearliest⟩ :=
    (hfollows.step call).held held hheld
  refine ⟨issue, hissue, ?_, ?_, ?_⟩
  · rw [hsnapshot, haccount, ← hfollows.pageBytes]
    exact hslice
  · rw [hsnapshot]
    exact hcursor
  · intro reading hreading deadline hdeadline
    exact lt_of_lt_of_le (hreadings reading hreading) (hearliest deadline hdeadline)

omit [DecidableEq Scope] in
/-- A capture's snapshot was issued, so the next capture has a greater one. -/
theorem held_le (hfollows : Follows pageBytes slot history) {held : Capture Scope Instant}
    (hheld : slot.current = some held) : held.snapshot.toNat ≤ history.length := by
  obtain ⟨issue, hissue, hsnapshot, -⟩ := hfollows.held held hheld
  have hmem : issue.snapshot.toNat ∈ List.range' 1 history.length := by
    rw [← hfollows.numbered]
    exact List.mem_map_of_mem hissue
  rw [List.mem_range'_1, hsnapshot] at hmem
  omega

/-- No step raises the deadline of the capture it keeps. -/
theorem step_expires_le (hfollows : Follows pageBytes slot history)
    {held kept : Capture Scope Instant} (hheld : slot.current = some held)
    {call : SlotCall Scope Instant Failure} (hkept : (slot.step call).2.current = some kept)
    (hsame : kept.snapshot = held.snapshot) : kept.expires ≤ held.expires := by
  cases call with
  | capture scope expires before after collected =>
      rcases slot.capture_cases scope expires before after collected with
        ⟨account, snapshot, rfl, -, -, hsnapshot, hcapture⟩ | ⟨error, hcapture⟩
      · -- A new capture has a new snapshot.
        simp only [CaptureSlot.step, Prod.map, hcapture, id] at hkept
        cases hkept
        have hnext : snapshot.toNat = history.length + 1 := by
          rw [checkedAdd_eq_some.mp hsnapshot, hfollows.counter]
          rfl
        have hle := hfollows.held_le hheld
        rw [← hsame] at hle
        change snapshot.toNat ≤ history.length at hle
        omega
      · simp only [CaptureSlot.step, Prod.map, hcapture, id] at hkept
        cases hkept
  | page scope cursor requestExpires now =>
      change (slot.page scope cursor requestExpires now).2.current = some kept at hkept
      rcases slot.page_cases scope cursor requestExpires now with
        ⟨-, error, hrefused⟩ | ⟨other, hother, -, -, ⟨-, hover⟩ | ⟨-, hnext, -⟩⟩
      · rw [hrefused, hheld] at hkept
        cases hkept
        exact le_refl _
      · rw [hover] at hkept
        cases hkept
      · rw [hnext] at hkept
        rw [hheld] at hother
        cases hother
        cases hkept
        exact min_le_left _ _
  | expire now =>
      change (slot.expire now).current = some kept at hkept
      rcases slot.expire_cases now with hsame | hended
      · rw [hsame, hheld] at hkept
        cases hkept
        exact le_refl _
      · rw [hended, CaptureSlot.end_of_held hheld] at hkept
        cases hkept
  | discard =>
      change slot.end.current = some kept at hkept
      rw [CaptureSlot.end_of_held hheld] at hkept
      cases hkept

omit [DecidableEq Scope] in
/-- A capture in time gets the next snapshot, or an error once there is none. -/
theorem capture_fst (hfollows : Follows pageBytes slot history) (scope : Scope)
    {expires before after : Instant} (account : FrozenAccount) (hbefore : before < expires)
    (hafter : after < expires) :
    (slot.capture scope expires before after (.ok account : Except Failure FrozenAccount)).1 =
      if history.length + 1 < UInt64.size then
        .ok (pageAt (UInt64.ofNat (history.length + 1)) account 0 pageBytes)
      else .error (.paging .snapshotsExhausted) := by
  simp only [CaptureSlot.capture, not_le.mpr hbefore, not_le.mpr hafter, if_false]
  cases hsum : checkedAdd slot.lastSnapshot 1 with
  | none =>
      rw [checkedAdd_eq_none, hfollows.counter] at hsum
      have hfull : ¬ history.length + 1 < UInt64.size := Nat.not_lt.mpr hsum
      rw [if_neg hfull]
  | some snapshot =>
      have hnext : snapshot.toNat = history.length + 1 := by
        rw [checkedAdd_eq_some.mp hsum, hfollows.counter]
        rfl
      have hfits : history.length + 1 < UInt64.size := hnext ▸ snapshot.toNat_lt
      rw [if_pos hfits, ← hnext, UInt64.ofNat_toNat, ← hfollows.pageBytes]
      rfl

end Follows

/-! ## Every run -/

/-- The slice of an account at an offset, with the account's length and digest and whether it is
the last one. -/
def slice (snapshot : UInt64) (account : FrozenAccount) (offset : UInt64) (pageBytes : Nat) :
    ObservationPage where
  snapshot
  offset
  total := UInt64.ofNat account.bytes.list.length
  sha256 := account.sha256
  bytes := (account.bytes.list.drop offset.toNat).take pageBytes
  complete := account.bytes.list.length ≤ offset.toNat + pageBytes

theorem pageAt_eq_slice (snapshot : UInt64) (account : FrozenAccount) (offset : UInt64)
    (pageBytes : Nat) :
    pageAt snapshot account offset pageBytes = slice snapshot account offset pageBytes := by
  have hbytes : account.pageBytesAt offset.toNat pageBytes =
      (account.bytes.list.drop offset.toNat).take pageBytes := by
    rw [FrozenAccount.pageBytesAt, window, List.drop_take]
    apply List.take_eq_take_iff.mpr
    rw [List.length_drop]
    omega
  simp only [pageAt, slice, hbytes, FrozenAccount.total, min_eq_left_iff]

section Runs

variable {Scope Instant Failure : Type} [LinearOrder Instant] [DecidableEq Scope]

/-- The slot follows the issues of its run, and every page served so far is a slice of one. -/
structure Served (pageBytes : Nat) (slot : CaptureSlot Scope Instant)
    (past : List (SlotCall Scope Instant Failure × SlotReply Failure)) : Prop where
  follows : Follows pageBytes slot (issues past)
  slices : ∀ entry ∈ past, ∀ page, entry.2.page? = some page → ∃ issue ∈ issues past,
    page = pageAt issue.snapshot issue.account entry.1.cursor.offset pageBytes ∧
      (entry.1.cursor = .start ∨ entry.1.cursor.snapshot = issue.snapshot)

theorem Served.step {pageBytes : Nat} {slot : CaptureSlot Scope Instant}
    {past : List (SlotCall Scope Instant Failure × SlotReply Failure)}
    (hserved : Served pageBytes slot past) (call : SlotCall Scope Instant Failure) :
    Served pageBytes (slot.step call).2 (past ++ [(call, (slot.step call).1)]) := by
  refine ⟨?_, ?_⟩
  · rw [issues_concat]
    exact hserved.follows.step call
  · intro entry hentry page hpage
    rw [issues_concat]
    rcases List.mem_append.mp hentry with hearlier | hnow
    · obtain ⟨issue, hissue, hslice, hcursor⟩ := hserved.slices entry hearlier page hpage
      obtain ⟨kept, hkept, hsnapshot, haccount⟩ :=
        record_keeps hissue (call, (slot.step call).1)
      rw [← hsnapshot] at hcursor
      rw [← hsnapshot, ← haccount] at hslice
      exact ⟨kept, hkept, hslice, hcursor⟩
    · cases List.mem_singleton.mp hnow
      obtain ⟨issue, hissue, hslice, hcursor, -⟩ := hserved.follows.served hpage
      exact ⟨issue, hissue, hslice, hcursor⟩

theorem Served.run {pageBytes : Nat} {slot : CaptureSlot Scope Instant}
    (hslot : CaptureSlot.withPageBytes pageBytes = .ok slot)
    (calls : List (SlotCall Scope Instant Failure)) :
    Served pageBytes ((CaptureSlot.machine Scope Instant Failure).final slot calls)
      ((CaptureSlot.machine Scope Instant Failure).transcript slot calls) := by
  have hfirst : Served pageBytes slot
      ([] : List (SlotCall Scope Instant Failure × SlotReply Failure)) :=
    ⟨.first hslot, nofun⟩
  exact (CaptureSlot.machine Scope Instant Failure).transcript_invariant
    (fun _ _ call hserved => hserved.step call) hfirst calls

/-- Two pages of one snapshot at one offset are the same page. -/
theorem Served.same_page {pageBytes : Nat} {slot : CaptureSlot Scope Instant}
    {past : List (SlotCall Scope Instant Failure × SlotReply Failure)}
    (hserved : Served pageBytes slot past)
    {entry other : SlotCall Scope Instant Failure × SlotReply Failure}
    (hentry : entry ∈ past) (hother : other ∈ past) {page again : ObservationPage}
    (hpage : entry.2.page? = some page) (hagain : other.2.page? = some again)
    (hsnapshot : page.snapshot = again.snapshot) (hoffset : page.offset = again.offset) :
    page = again := by
  obtain ⟨issue, hissue, rfl, -⟩ := hserved.slices entry hentry page hpage
  obtain ⟨issue', hissue', rfl, -⟩ := hserved.slices other hother again hagain
  change entry.1.cursor.offset = other.1.cursor.offset at hoffset
  rw [hserved.follows.unique hissue hissue' hsnapshot, hoffset]

end Runs

/-- The protocol of one slot over every run of calls: fresh snapshots, pages that are slices of
their capture, deadlines that only fall, and a remembered end. -/
theorem capture_protocol {Scope Instant Failure : Type} [LinearOrder Instant]
    [DecidableEq Scope] (pageBytes : Nat) (first : CaptureSlot Scope Instant)
    (hfirst : CaptureSlot.withPageBytes pageBytes = .ok first)
    (calls : List (SlotCall Scope Instant Failure)) :
    let machine := CaptureSlot.machine Scope Instant Failure
    let slot := machine.final first calls
    let past := machine.transcript first calls
    -- Snapshots count up from one, and running out of them is an error.
    (issues past).map (fun issue => issue.snapshot.toNat) =
      List.range' 1 (issues past).length ∧
    (∀ scope expires before after account, before < expires → after < expires →
      (slot.capture scope expires before after
          (.ok account : Except Failure FrozenAccount)).1 =
        if (issues past).length + 1 < UInt64.size then
          .ok (slice (UInt64.ofNat ((issues past).length + 1)) account 0 pageBytes)
        else .error (.paging .snapshotsExhausted)) ∧
    -- Every page is the slice of its capture's account at the offset asked for.
    (∀ entry ∈ past, ∀ page, entry.2.page? = some page → ∃ issue ∈ issues past,
      page = slice issue.snapshot issue.account entry.1.cursor.offset pageBytes ∧
        (entry.1.cursor = .start ∨ entry.1.cursor.snapshot = issue.snapshot)) ∧
    (∀ entry ∈ past, ∀ other ∈ past, ∀ page again, entry.2.page? = some page →
      other.2.page? = some again → page.snapshot = again.snapshot →
      page.offset = again.offset → page = again) ∧
    -- The deadline never rises, and no page is served at or past any that named it.
    (∀ (call : SlotCall Scope Instant Failure) held kept, slot.current = some held →
      (slot.step call).2.current = some kept → kept.snapshot = held.snapshot →
      kept.expires ≤ held.expires) ∧
    (∀ (call : SlotCall Scope Instant Failure) page, (slot.step call).1.page? = some page →
      ∀ issue ∈ issues (past ++ [(call, (slot.step call).1)]),
        issue.snapshot = page.snapshot →
        ∀ reading ∈ call.readings, ∀ deadline ∈ issue.deadlines, reading < deadline) ∧
    -- Once a capture ended, until the next capture call.
    (∀ held (call : SlotCall Scope Instant Failure) later, slot.current = some held →
      call.isCapture = false → (slot.step call).2.current = none →
      (∀ other ∈ later, other.isCapture = false) →
      ∀ scope cursor requestExpires now, cursor.snapshot ≠ 0 →
        (machine.final slot (call :: later)).page scope cursor requestExpires now =
          (.error (if cursor.snapshot = held.snapshot then
              if scope = held.scope then .expired else .scopeChanged cursor.snapshot
            else .unknownSnapshot cursor.snapshot),
            machine.final slot (call :: later))) ∧
    ∀ held, slot.current = some held → ∀ scope cursor requestExpires now,
      cursor.snapshot ≠ 0 → cursor.snapshot ≠ held.snapshot →
      slot.page scope cursor requestExpires now =
        (.error (.unknownSnapshot cursor.snapshot), slot) := by
  intro machine slot past
  have hserved : Served pageBytes slot past := .run hfirst calls
  have hfollows := hserved.follows
  refine ⟨hfollows.numbered, ?_, ?_, ?_, ?_, ?_, ?_, ?_⟩
  · intro scope expires before after account hbefore hafter
    rw [← pageAt_eq_slice]
    exact hfollows.capture_fst scope account hbefore hafter
  · intro entry hentry page hpage
    simp only [← pageAt_eq_slice]
    exact hserved.slices entry hentry page hpage
  · intro entry hentry other hother page again hpage hagain hsnapshot hoffset
    exact hserved.same_page hentry hother hpage hagain hsnapshot hoffset
  · intro call held kept hheld hkept hsame
    exact hfollows.step_expires_le hheld hkept hsame
  · intro call page hpage issue hissue hsnapshot
    rw [issues_concat] at hissue
    obtain ⟨served, hmem, rfl, -, hreadings⟩ := hfollows.served hpage
    rw [(hfollows.step call).unique hissue hmem hsnapshot]
    exact hreadings
  · intro held call later hheld hcall hgone hlater scope cursor requestExpires now hcursor
    have hfinal : machine.final slot (call :: later) = (slot.step call).2 :=
      CaptureSlot.final_of_empty hgone hlater
    rw [hfinal]
    exact CaptureSlot.page_of_ended hgone (CaptureSlot.step_ends hheld hcall hgone) scope hcursor
      requestExpires now
  · intro held hheld scope cursor requestExpires now hcursor hother
    exact CaptureSlot.page_of_other hheld (hfollows.exclusive held hheld) scope hcursor hother
      requestExpires now

def sampleAccount : FrozenAccount := ⟨⟨[1, 2, 3], by decide, by decide⟩, ⟨.replicate 32 7⟩⟩

/-- Two captures with a page between them, the first request naming an earlier deadline. -/
def sampleCalls : List (SlotCall String Nat Empty) :=
  [.capture "viewer" 9 0 1 (.ok sampleAccount), .page "viewer" ⟨1, 2⟩ 5 2,
    .page "viewer" ⟨1, 0⟩ 9 5, .capture "other" 9 6 7 (.ok sampleAccount)]

theorem capture_protocol_sample :
    (issues ((CaptureSlot.machine String Nat Empty).transcript .new sampleCalls)).map
      (fun issue => issue.snapshot.toNat) = [1, 2] :=
  (capture_protocol maxPageBytes .new rfl sampleCalls).1

end Plasmosome.Paging
