import Plasmosome.Foundation.Checked
import Plasmosome.Foundation.Checks
import Plasmosome.Foundation.Windows
import Plasmosome.Backend.Digest

/-!
# Pages of a frozen account

An account is frozen as its bytes and their hash, and sent in pages. The page
check reads 64-bit fields a peer chose, so its rules are stated over the
natural numbers and the check is shown to be exactly those rules.
-/

namespace Plasmosome.Paging

open Foundation Backend

/-- The most account bytes one page carries. -/
def maxPageBytes : Nat := 65536

/-- One page of a frozen account, as a peer states it. -/
structure ObservationPage where
  snapshot : UInt64
  offset : UInt64
  total : UInt64
  sha256 : Digest
  bytes : List UInt8
  complete : Bool
deriving DecidableEq

/-- The first rule a page breaks. -/
inductive PageFault where
  | zeroSnapshot
  | zeroTotal
  | emptyBytes
  | tooManyBytes (len : Nat)
  | offsetOverflow (offset : UInt64) (len : Nat)
  | beyondTotal («end» total : UInt64)
  | completeFlag (stated actual : Bool)
deriving DecidableEq, Repr

/-- Checks the rules of one page and returns the first one broken. -/
def ObservationPage.check (page : ObservationPage) : Except PageFault Unit :=
  let len := page.bytes.length
  if page.snapshot = 0 then .error .zeroSnapshot
  else if page.total = 0 then .error .zeroTotal
  else if len = 0 then .error .emptyBytes
  else if len > maxPageBytes then .error (.tooManyBytes len)
  else
    match checkedAdd page.offset (UInt64.ofNat len) with
    | none => .error (.offsetOverflow page.offset len)
    | some «end» =>
        if «end» > page.total then .error (.beyondTotal «end» page.total)
        else
          let actual := «end» == page.total
          if page.complete ≠ actual then .error (.completeFlag page.complete actual)
          else .ok ()

/-- Which page to ask for: zero/zero starts a capture. -/
structure PageCursor where
  snapshot : UInt64
  offset : UInt64
deriving DecidableEq, Repr

def PageCursor.start : PageCursor := ⟨0, 0⟩

def PageCursor.isStart (cursor : PageCursor) : Bool := cursor = .start

/-- The encoding of a value: never empty, and no longer than memory can hold. -/
structure AccountBytes where
  list : List UInt8
  nonempty : list ≠ []
  allocated : list.length < 2 ^ 63
deriving DecidableEq

/-- One logical result, encoded once and hashed. -/
structure FrozenAccount where
  bytes : AccountBytes
  sha256 : Digest
deriving DecidableEq

namespace FrozenAccount

/-- Hashes encoded bytes. -/
def hashed (sha256 : List UInt8 → Digest) (bytes : AccountBytes) : FrozenAccount :=
  ⟨bytes, sha256 bytes.list⟩

/-- The account's length, the `total` of each of its pages. -/
def total (account : FrozenAccount) : UInt64 := UInt64.ofNat account.bytes.list.length

/-- The bytes a page of this size at this offset carries. -/
def pageBytesAt (account : FrozenAccount) (start pageBytes : Nat) : List UInt8 :=
  let account := account.bytes.list
  window account start (min account.length (start + pageBytes))

end FrozenAccount

/-- The page of a capture at an offset. -/
def pageAt (snapshot : UInt64) (account : FrozenAccount) (offset : UInt64) (pageBytes : Nat) :
    ObservationPage where
  snapshot
  offset
  total := account.total
  sha256 := account.sha256
  bytes := account.pageBytesAt offset.toNat pageBytes
  complete :=
    min account.bytes.list.length (offset.toNat + pageBytes) = account.bytes.list.length

/-! ## The rules of a page over the natural numbers -/

/-- A page that breaks no rule. -/
structure ObservationPage.WellFormed (page : ObservationPage) : Prop where
  snapshot : page.snapshot ≠ 0
  total : page.total ≠ 0
  nonempty : 0 < page.bytes.length
  bounded : page.bytes.length ≤ maxPageBytes
  within : page.offset.toNat + page.bytes.length ≤ page.total.toNat
  complete : page.complete = true ↔
    page.offset.toNat + page.bytes.length = page.total.toNat

theorem toNat_ofNat_length {bytes : List UInt8} (hbounded : bytes.length ≤ maxPageBytes) :
    (UInt64.ofNat bytes.length).toNat = bytes.length := by
  apply toNat_ofNat_of_fits
  have hmax : maxPageBytes < UInt64.size := by decide
  omega

/-- The check computes exactly the rules: no sum or cast in it wraps. -/
theorem ObservationPage.check_eq_ok_iff {page : ObservationPage} :
    page.check = .ok () ↔ page.WellFormed := by
  unfold check
  dsimp only
  split
  next hzero => exact ⟨nofun, fun hpage => absurd hzero hpage.snapshot⟩
  next hsnapshot =>
    split
    next hzero => exact ⟨nofun, fun hpage => absurd hzero hpage.total⟩
    next htotal =>
      split
      next hempty => exact ⟨nofun, fun hpage => absurd hempty hpage.nonempty.ne'⟩
      next hnonempty =>
        split
        next hmany => exact ⟨nofun, fun hpage => absurd hpage.bounded (Nat.not_le.mpr hmany)⟩
        next hfew =>
          have hbounded := Nat.le_of_not_gt hfew
          have hlen := toNat_ofNat_length hbounded
          have hstated := page.total.toNat_lt
          split
          next hoverflow =>
            rw [checkedAdd_eq_none, hlen] at hoverflow
            refine ⟨nofun, fun hpage => ?_⟩
            have hwithin := hpage.within
            simp only [UInt64.size] at hoverflow
            omega
          next «end» hend =>
            rw [checkedAdd_eq_some, hlen] at hend
            split
            next hbeyond =>
              refine ⟨nofun, fun hpage => ?_⟩
              have hwithin := hpage.within
              have hbeyond' := UInt64.lt_iff_toNat_lt.mp hbeyond
              omega
            next hinside =>
              have hwithin : page.offset.toNat + page.bytes.length ≤ page.total.toNat := by
                rw [← hend]
                exact UInt64.le_iff_toNat_le.mp (UInt64.not_lt.mp hinside)
              have hactual : («end» == page.total) = true ↔
                  page.offset.toNat + page.bytes.length = page.total.toNat := by
                rw [beq_iff_eq, ← UInt64.toNat_inj, hend]
              split
              next hflag =>
                refine ⟨nofun, fun hpage => absurd ?_ hflag⟩
                rw [Bool.eq_iff_iff, hpage.complete, hactual]
              next hflag =>
                rw [not_not] at hflag
                refine ⟨fun _ => ⟨hsnapshot, htotal, Nat.pos_of_ne_zero hnonempty, hbounded,
                  hwithin, ?_⟩, fun _ => rfl⟩
                rw [hflag, hactual]

/-- The sum the check reports is never a wrapped one. -/
theorem ObservationPage.check_sum_exact (page : ObservationPage) :
    (∀ offset len, page.check = .error (.offsetOverflow offset len) →
      2 ^ 64 ≤ page.offset.toNat + page.bytes.length) ∧
    ∀ «end» total, page.check = .error (.beyondTotal «end» total) →
      «end».toNat = page.offset.toNat + page.bytes.length := by
  unfold check
  dsimp only
  split
  · exact ⟨nofun, nofun⟩
  · split
    · exact ⟨nofun, nofun⟩
    · split
      · exact ⟨nofun, nofun⟩
      · split
        · exact ⟨nofun, nofun⟩
        next hfew =>
          have hlen := toNat_ofNat_length (Nat.le_of_not_gt hfew)
          split
          next hoverflow =>
            rw [checkedAdd_eq_none, hlen] at hoverflow
            exact ⟨fun _ _ _ => hoverflow, nofun⟩
          next sum hsum =>
            rw [checkedAdd_eq_some, hlen] at hsum
            split
            · refine ⟨nofun, ?_⟩
              rintro _ _ ⟨⟩
              exact hsum
            · split
              · exact ⟨nofun, nofun⟩
              · exact ⟨nofun, nofun⟩

/-! ## The pages of an account -/

namespace FrozenAccount

variable {account : FrozenAccount}

theorem toNat_total (account : FrozenAccount) :
    account.total.toNat = account.bytes.list.length := by
  apply toNat_ofNat_of_fits
  have hallocated := account.bytes.allocated
  simp only [UInt64.size]
  omega

theorem length_pos (account : FrozenAccount) : 0 < account.bytes.list.length :=
  List.length_pos_iff.mpr account.bytes.nonempty

end FrozenAccount

/-- Every page of an account at an offset inside it is well formed. -/
theorem pageAt_wellFormed {snapshot offset : UInt64} {account : FrozenAccount} {pageBytes : Nat}
    (hsnapshot : snapshot ≠ 0) (hsize : 0 < pageBytes) (hbounded : pageBytes ≤ maxPageBytes)
    (hoffset : offset.toNat < account.bytes.list.length) :
    (pageAt snapshot account offset pageBytes).WellFormed := by
  have hlength : (pageAt snapshot account offset pageBytes).bytes.length =
      min account.bytes.list.length (offset.toNat + pageBytes) - offset.toNat := by
    simp [pageAt, FrozenAccount.pageBytesAt, length_window]
  have htotal := account.toNat_total
  refine ⟨hsnapshot, ?_, ?_, ?_, ?_, ?_⟩
  · intro hzero
    have hpos := account.length_pos
    rw [← htotal] at hpos
    change 0 < (pageAt snapshot account offset pageBytes).total.toNat at hpos
    rw [hzero] at hpos
    exact absurd hpos (Nat.lt_irrefl 0)
  · rw [hlength]
    omega
  · rw [hlength]
    omega
  · rw [hlength]
    change offset.toNat + _ ≤ account.total.toNat
    omega
  · rw [hlength]
    change decide (min account.bytes.list.length (offset.toNat + pageBytes) =
      account.bytes.list.length) = true ↔ offset.toNat + _ = account.total.toNat
    rw [decide_eq_true_iff]
    omega

end Plasmosome.Paging
