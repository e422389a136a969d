import Plasmosome.Foundation.Checks

/-!
# One-pass scans for repeated keys

A loop that refuses a key it has already met accepts a list exactly when no key
occurs twice in the whole list. The rule is about one turn of the loop, and a
turn may itself be such a loop.
-/

namespace Foundation

/-- Marks a key, which must be new. -/
def enter {κ ε : Type} [DecidableEq κ] (refusal : ε) (seen : List κ) (key : κ) :
    Except ε (List κ) :=
  if key ∈ seen then .error refusal else .ok (key :: seen)

/-- One turn of a scan: it goes on exactly when the item is good and its keys are distinct and not
held yet, and then holds them too. -/
structure Scan {σ κ ε α : Type} (holds : σ → κ → Prop) (visit : σ → α → Except ε σ)
    (keys : α → List κ) (good : α → Prop) : Prop where
  accepts : ∀ seen a, (∃ after, visit seen a = .ok after) ↔
    good a ∧ (keys a).Nodup ∧ ∀ key ∈ keys a, ¬ holds seen key
  marks : ∀ {seen a after}, visit seen a = .ok after →
    ∀ key, holds after key ↔ key ∈ keys a ∨ holds seen key

theorem scan_enter {κ ε : Type} [DecidableEq κ] (refusal : κ → ε) :
    Scan (fun seen key => key ∈ seen) (fun seen key => enter (refusal key) seen key)
      (fun key => [key]) fun _ => True where
  accepts seen key := by
    unfold enter
    split
    next hseen => simp [hseen]
    next hnew => simp [hnew]
  marks := by
    intro seen key after henter other
    unfold enter at henter
    split at henter
    · cases henter
    · cases henter
      rw [List.mem_cons, List.mem_singleton]

namespace Scan

variable {σ κ ε α β : Type} {holds : σ → κ → Prop} {visit : σ → α → Except ε σ}
  {keys : α → List κ} {good : α → Prop}

/-- A scan is one of each item by itself. -/
theorem pointwise (hscan : ∀ a, Scan holds (fun seen (_ : Unit) => visit seen a) (fun _ => keys a)
    fun _ => good a) : Scan holds visit keys good :=
  ⟨fun seen a => (hscan a).accepts seen (),
    fun {_ a _} hvisit => (hscan a).marks (a := ()) hvisit⟩

theorem congr (hscan : Scan holds visit keys good) {keys' : α → List κ} {good' : α → Prop}
    (hkeys : ∀ a, keys a = keys' a) (hgood : ∀ a, good a ↔ good' a) :
    Scan holds visit keys' good' := by
  obtain rfl : keys = keys' := funext hkeys
  obtain rfl : good = good' := funext fun a => propext (hgood a)
  exact hscan

/-- A turn that always goes on and marks nothing. -/
theorem idle : Scan holds (fun seen (_ : α) => Except.ok (ε := ε) seen) (fun _ => [])
    fun _ => True where
  accepts := by simp
  marks := by
    intro seen _ after hvisit key
    cases hvisit
    simp

/-- A scan of the images of items. -/
theorem comap (hscan : Scan holds visit keys good) (image : β → α) :
    Scan holds (fun seen item => visit seen (image item)) (fun item => keys (image item))
      fun item => good (image item) :=
  ⟨fun seen item => hscan.accepts seen (image item), fun hvisit => hscan.marks hvisit⟩

/-- A scan that first checks the item. -/
theorem guarded (hscan : Scan holds visit keys good) {check : α → Except ε Unit} {sound : α → Prop}
    (hcheck : ∀ a, check a = .ok () ↔ sound a) :
    Scan holds (fun seen a => check a >>= fun _ => visit seen a) keys
      fun a => sound a ∧ good a where
  accepts seen a := by
    simp only [check_bind_eq_ok, hcheck, exists_and_left, hscan.accepts seen a, and_assoc]
  marks := by
    intro seen a after hvisit
    rw [check_bind_eq_ok] at hvisit
    exact hscan.marks hvisit.2

/-- Two scans of one item, one after the other. -/
theorem andThen (hscan : Scan holds visit keys good) {next : σ → α → Except ε σ}
    {others : α → List κ} {fine : α → Prop} (hnext : Scan holds next others fine) :
    Scan holds (fun seen a => visit seen a >>= fun seen => next seen a)
      (fun a => keys a ++ others a) fun a => good a ∧ fine a where
  accepts seen a := by
    simp only [bind_eq_ok]
    constructor
    · rintro ⟨after, middle, hfirst, hsecond⟩
      obtain ⟨hgood, hkeys, hnew⟩ := (hscan.accepts seen a).mp ⟨middle, hfirst⟩
      obtain ⟨hfine, hothers, hfresh⟩ := (hnext.accepts middle a).mp ⟨after, hsecond⟩
      have hmarked := hscan.marks hfirst
      refine ⟨⟨hgood, hfine⟩, List.nodup_append.mpr ⟨hkeys, hothers, ?_⟩, ?_⟩
      · rintro key hkey _ hother rfl
        exact hfresh key hother ((hmarked key).mpr (.inl hkey))
      · intro key hkey hheld
        rcases List.mem_append.mp hkey with hin | hin
        · exact hnew key hin hheld
        · exact hfresh key hin ((hmarked key).mpr (.inr hheld))
    · rintro ⟨⟨hgood, hfine⟩, hnodup, hnew⟩
      obtain ⟨hkeys, hothers, hapart⟩ := List.nodup_append.mp hnodup
      obtain ⟨middle, hfirst⟩ := (hscan.accepts seen a).mpr
        ⟨hgood, hkeys, fun key hkey => hnew key (List.mem_append_left _ hkey)⟩
      have hfresh : ∀ key ∈ others a, ¬ holds middle key := by
        intro key hkey hheld
        rcases (hscan.marks hfirst key).mp hheld with hin | hold
        · exact hapart key hin key hkey rfl
        · exact hnew key (List.mem_append_right _ hkey) hold
      obtain ⟨after, hsecond⟩ := (hnext.accepts middle a).mpr ⟨hfine, hothers, hfresh⟩
      exact ⟨after, middle, hfirst, hsecond⟩
  marks := by
    intro seen a after hvisit key
    obtain ⟨middle, hfirst, hsecond⟩ := bind_eq_ok.mp hvisit
    rw [hnext.marks hsecond, hscan.marks hfirst, List.mem_append]
    constructor
    · rintro (hother | hkey | hheld)
      · exact .inl (.inr hother)
      · exact .inl (.inl hkey)
      · exact .inr hheld
    · rintro ((hkey | hother) | hheld)
      · exact .inr (.inl hkey)
      · exact .inl hother
      · exact .inr (.inr hheld)

theorem foldlM_at (hscan : Scan holds visit keys good) (list : List α) :
    Scan holds (fun seen (_ : Unit) => list.foldlM visit seen)
      (fun _ => list.flatMap keys) fun _ => ∀ a ∈ list, good a := by
  induction list with
  | nil =>
      refine ⟨?_, ?_⟩
      · simp [pure, Except.pure]
      · intro seen _ after hloop key
        cases hloop
        simp
  | cons head tail ih =>
      simp only [List.foldlM_cons, List.flatMap_cons, List.forall_mem_cons]
      exact (hscan.comap fun _ => head).andThen ih

/-- A loop of scans is a scan of the whole list. -/
theorem foldlM (hscan : Scan holds visit keys good) :
    Scan holds (fun seen (list : List α) => list.foldlM visit seen)
      (fun list => list.flatMap keys) fun list => ∀ a ∈ list, good a :=
  pointwise fun list => hscan.foldlM_at list

/-- A whole scan from nothing held accepts exactly good items of distinct keys. -/
theorem run_ok_iff (hscan : Scan holds visit keys good) (start : σ)
    (hstart : ∀ key, ¬ holds start key)
    (list : List α) : (∃ after, list.foldlM visit start = .ok after) ↔
      (∀ a ∈ list, good a) ∧ (list.flatMap keys).Nodup := by
  rw [hscan.foldlM.accepts start list]
  exact and_congr_right fun _ => and_iff_left fun key _ => hstart key

/-! ## Two kinds of keys -/

theorem nodup_sums {κ ι : Type} {keys : List (κ ⊕ ι)} : keys.Nodup ↔
    (keys.filterMap Sum.getLeft?).Nodup ∧ (keys.filterMap Sum.getRight?).Nodup := by
  induction keys with
  | nil => simp
  | cons key rest ih =>
      cases key with
      | inl left =>
          have hleft : Sum.inl left ∈ rest ↔ left ∈ rest.filterMap Sum.getLeft? := by
            simp [List.mem_filterMap, Sum.getLeft?_eq_some_iff]
          rw [List.nodup_cons, ih, hleft, ← and_assoc, ← List.nodup_cons]
          rfl
      | inr right =>
          have hright : Sum.inr right ∈ rest ↔ right ∈ rest.filterMap Sum.getRight? := by
            simp [List.mem_filterMap, Sum.getRight?_eq_some_iff]
          rw [List.nodup_cons, ih, hright, and_left_comm, ← List.nodup_cons]
          rfl

/-- A scan whose left keys are forgotten after each item. -/
theorem local_left {σ τ κ ι ε α : Type} {holdsLeft : σ → κ → Prop} {holdsRight : τ → ι → Prop}
    {visit : σ × τ → α → Except ε (σ × τ)} {keys : α → List (κ ⊕ ι)} {good : α → Prop}
    (hscan : Scan (fun seen => Sum.elim (holdsLeft seen.1) (holdsRight seen.2)) visit keys good)
    (start : σ) (hstart : ∀ key, ¬ holdsLeft start key) :
    Scan holdsRight (fun seen a => (visit (start, seen) a).map Prod.snd)
      (fun a => (keys a).filterMap Sum.getRight?)
      fun a => good a ∧ ((keys a).filterMap Sum.getLeft?).Nodup where
  accepts seen a := by
    have hmap : (∃ after, (visit (start, seen) a).map Prod.snd = .ok after) ↔
        ∃ after, visit (start, seen) a = .ok after := by
      cases visit (start, seen) a with
      | error _ => simp [Except.map]
      | ok after => simp [Except.map]
    rw [hmap, hscan.accepts, nodup_sums, and_assoc, and_assoc]
    refine and_congr_right fun _ => and_congr_right fun _ => and_congr_right fun _ => ?_
    constructor
    · intro hnew key hkey
      obtain ⟨key', hmem, hright⟩ := List.mem_filterMap.mp hkey
      rw [Sum.getRight?_eq_some_iff] at hright
      exact hnew (.inr key) (hright ▸ hmem)
    · rintro hnew (key | key) hkey
      · exact hstart key
      · exact hnew key (List.mem_filterMap.mpr ⟨_, hkey, rfl⟩)
  marks := by
    intro seen a after hvisit key
    cases hfound : visit (start, seen) a with
    | error _ =>
        rw [hfound] at hvisit
        cases hvisit
    | ok pair =>
        rw [hfound] at hvisit
        cases hvisit
        have hmarked := hscan.marks hfound (.inr key)
        simpa [List.mem_filterMap, Sum.getRight?_eq_some_iff] using hmarked

/-- A scan of one part of a state, whose keys are some of the state's. -/
theorem part {σ τ κ ι ε α : Type} {holds : σ → κ → Prop} {held : τ → ι → Prop}
    {visit : τ → α → Except ε τ} {keys : α → List ι} {good : α → Prop}
    (hscan : Scan held visit keys good) (get : σ → τ) (set : σ → τ → σ) {key : ι → κ}
    (hkey : Function.Injective key)
    (hget : ∀ seen item, holds seen (key item) ↔ held (get seen) item)
    (hset : ∀ seen after item, holds (set seen after) (key item) ↔ held after item)
    (hkept : ∀ seen after other, (∀ item, key item ≠ other) →
      (holds (set seen after) other ↔ holds seen other)) :
    Scan holds (fun seen a => (visit (get seen) a).map (set seen))
      (fun a => (keys a).map key) good where
  accepts seen a := by
    have hmap : (∃ after, (visit (get seen) a).map (set seen) = .ok after) ↔
        ∃ after, visit (get seen) a = .ok after := by
      cases visit (get seen) a with
      | error _ => simp [Except.map]
      | ok after => simp [Except.map]
    rw [hmap, hscan.accepts, List.nodup_map_iff hkey, List.forall_mem_map]
    simp only [hget]
  marks := by
    intro seen a after hvisit other
    cases hfound : visit (get seen) a with
    | error _ =>
        rw [hfound] at hvisit
        cases hvisit
    | ok middle =>
        rw [hfound] at hvisit
        cases hvisit
        by_cases hother : ∃ item, key item = other
        · obtain ⟨item, rfl⟩ := hother
          rw [hset, hget, hscan.marks hfound, List.mem_map_of_injective hkey]
        · have hnone : ∀ item, key item ≠ other := fun item heq => hother ⟨item, heq⟩
          rw [hkept _ _ _ hnone]
          refine ⟨.inr, fun hor => hor.resolve_left ?_⟩
          intro hmem
          obtain ⟨item, -, hitem⟩ := List.mem_map.mp hmem
          exact hnone item hitem

end Scan

end Foundation
