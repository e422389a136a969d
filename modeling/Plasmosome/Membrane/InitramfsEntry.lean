import Plasmosome.Foundation.Each
import Plasmosome.Membrane.InitramfsFormat

/-!
# Reading an entry

What is read at an offset is the member whose bytes stand there, and reading it again
gives the same member. Nothing panics, and a refusal names an offset within the archive.
-/

namespace Plasmosome.Membrane.Initramfs

open Foundation

/-! ## Parts -/

/-- A part stands in the bytes from one offset up to another. -/
structure Stands (bytes : List UInt8) (start : Nat) (part : List UInt8) (stop : Nat) : Prop where
  start_le : start ≤ bytes.length
  stop_eq : stop = start + part.length
  drop_eq : bytes.drop start = part ++ bytes.drop stop

namespace Stands

variable {bytes part next : List UInt8} {start middle stop : Nat}

theorem stop_le (hstands : Stands bytes start part stop) : stop ≤ bytes.length := by
  have hstart := hstands.start_le
  have hstop := hstands.stop_eq
  have hsizes := congrArg List.length hstands.drop_eq
  simp only [List.length_append, List.length_drop] at hsizes
  omega

/-- Parts that stand one behind the other stand as one. -/
theorem append (hfirst : Stands bytes start part middle) (hnext : Stands bytes middle next stop) :
    Stands bytes start (part ++ next) stop := by
  refine ⟨hfirst.start_le, ?_, ?_⟩
  · rw [hnext.stop_eq, hfirst.stop_eq, List.length_append, Nat.add_assoc]
  · rw [hfirst.drop_eq, hnext.drop_eq, List.append_assoc]

/-- A part of two stands as the first and then the second. -/
theorem split (hstands : Stands bytes start (part ++ next) stop) :
    Stands bytes start part (start + part.length) ∧
      Stands bytes (start + part.length) next stop := by
  have hstop := hstands.stop_eq
  have hle := hstands.stop_le
  rw [List.length_append] at hstop
  have hrest : bytes.drop (start + part.length) = next ++ bytes.drop stop := by
    rw [← List.drop_drop, hstands.drop_eq, List.append_assoc, List.drop_left]
  refine ⟨⟨hstands.start_le, rfl, ?_⟩, ⟨by omega, by omega, hrest⟩⟩
  rw [hrest, ← List.append_assoc]
  exact hstands.drop_eq

/-- Parts of one length that stand at one place are the same. -/
theorem unique {stop' : Nat} (hpart : Stands bytes start part stop)
    (hnext : Stands bytes start next stop') (hlength : part.length = next.length) :
    part = next ∧ stop = stop' := by
  have hdrop := hpart.drop_eq.symm.trans hnext.drop_eq
  exact ⟨List.append_inj_left hdrop hlength, by rw [hpart.stop_eq, hnext.stop_eq, hlength]⟩

end Stands

@[simp] theorem refuse_ne_ok {α : Type} (refusal : InitramfsRefusal) (value : α) :
    refuse refusal = .ok value ↔ False := by
  simp [refuse]

@[simp] theorem word_eq_ok {number : Option Nat} {value : Nat} :
    word number = .ok value ↔ number = some value := by
  cases number <;> simp [word]

/-- A part is taken exactly where it stands. -/
theorem take_eq_ok {bytes part : List UInt8} {start length : Nat} (hbytes : bytes.length < 2 ^ 63)
    (hstart : start ≤ bytes.length) :
    take bytes start length = .ok part ↔
      part.length = length ∧ Stands bytes start part (start + length) := by
  have hwhole := drop_eq_window_append bytes (Nat.le_add_right start length)
  have hlength := length_window bytes start (start + length)
  constructor
  · intro htake
    unfold take at htake
    split at htake
    next stop hstop =>
      simp only [Words.add, Option.ite_none_right_eq_some, Option.some.injEq] at hstop
      obtain ⟨-, rfl⟩ := hstop
      split at htake
      next hwithin =>
        cases htake
        exact ⟨by omega, hstart, by omega, hwhole⟩
      next => cases htake
    next => cases htake
  · rintro ⟨rfl, hstands⟩
    have hwithin := hstands.stop_le
    have hsame : window bytes start (start + part.length) = part :=
      List.append_cancel_right (hwhole.symm.trans hstands.drop_eq)
    rw [take, Words.add_fits (by omega)]
    simp only [hwithin, if_true, hsame]

@[simp] theorem length_padding (length : Nat) : (padding length).length = (4 - length % 4) % 4 := by
  simp [padding]

/-- Rounding up adds the padding, without an overflow. -/
theorem nextMultipleOf_fits {value : Nat} (hvalue : value < 2 ^ 63) :
    nextMultipleOf value 4 = some (value + (padding value).length) := by
  rw [length_padding]
  unfold nextMultipleOf
  split
  next hdivides =>
    rw [hdivides]
    rfl
  next hother =>
    rw [Words.add_fits (by omega)]
    refine congrArg some ?_
    omega

theorem findIdx?_ne_zero {bytes : List UInt8} :
    bytes.findIdx? (· ≠ 0) = none ↔ bytes = List.replicate bytes.length 0 := by
  rw [List.findIdx?_eq_none_iff, List.eq_replicate_iff]
  simp

/-- Padding is passed over exactly where it stands. -/
theorem padded_eq_ok {bytes : List UInt8} {start stop : Nat} (hbytes : bytes.length < 2 ^ 63)
    (hstart : start ≤ bytes.length) :
    padded bytes start = .ok stop ↔ Stands bytes start (padding start) stop := by
  rw [padded, nextMultipleOf_fits (by omega)]
  simp only [bind_eq_ok, word_eq_ok, Option.some.injEq, exists_eq_left']
  rw [Words.sub_fits (by omega)]
  simp only [Option.some.injEq, exists_eq_left', Nat.add_sub_cancel_left]
  constructor
  · rintro ⟨zeros, htake, hzeros⟩
    obtain ⟨hlength, hstands⟩ := (take_eq_ok hbytes hstart).mp htake
    split at hzeros
    next => simp [bind_eq_ok] at hzeros
    next hnone =>
      cases hzeros
      have hpadding : zeros = padding start := by
        rw [findIdx?_ne_zero.mp hnone, hlength, length_padding, padding]
      exact hpadding ▸ hstands
  · intro hstands
    have hstop := hstands.stop_eq
    refine ⟨padding start, (take_eq_ok hbytes hstart).mpr ⟨rfl, hstop ▸ hstands⟩, ?_⟩
    have hnone : (padding start).findIdx? (· ≠ 0) = none := by
      rw [findIdx?_ne_zero, length_padding, padding]
    rw [hnone, hstop]

/-- A name is read exactly when it is UTF-8 and ended by its only zero byte. -/
theorem readName_eq_ok {start : Nat} {raw : List UInt8} {name : List Char} :
    readName start raw = .ok name ↔ raw = Utf8.encode name ++ [0] ∧ 0 ∉ Utf8.encode name := by
  unfold readName
  constructor
  · intro hname
    split at hname
    next hlast =>
      split at hname
      next => simp at hname
      next hnone =>
        split at hname
        next decoded hdecode =>
          cases hname
          have hbytes := Utf8.decode_eq_ok.mp hdecode
          rw [← hbytes]
          obtain ⟨front, rfl⟩ := List.getLast?_eq_some_iff.mp hlast
          rw [List.dropLast_concat] at hnone ⊢
          exact ⟨rfl, hnone⟩
        next => simp at hname
    next => simp at hname
  · rintro ⟨rfl, hnone⟩
    rw [if_pos (by simp), List.dropLast_concat, if_neg hnone, Utf8.decode_encode]

/-- The magic passes exactly where it stands. -/
theorem checkMagic_eq_ok {bytes : List UInt8} {start : Nat} {done : Unit} :
    checkMagic bytes start = .ok done ↔ (bytes.drop start).take MAGIC.length = MAGIC := by
  simp only [checkMagic]
  constructor
  · intro hmagic
    split at hmagic
    next => simp at hmagic
    next =>
      split at hmagic
      next =>
        split at hmagic
        next hsame => exact hsame
        next => simp at hmagic
      next => split at hmagic <;> simp at hmagic
  · intro hsame
    have hlength := congrArg List.length hsame
    rw [List.length_take] at hlength
    have hlong : MAGIC.length ≤ (bytes.drop start).length := by omega
    have hsome : bytes.drop start ≠ [] :=
      List.ne_nil_of_length_pos (Nat.lt_of_lt_of_le (by decide) hlong)
    rw [if_neg hsome, if_pos hlong, if_pos hsame]

/-! ## Headers -/

/-- A field is read exactly from its eight hexadecimal digits. -/
theorem readField_eq_ok {header : List UInt8} {start index : Nat} {field : String} {value : UInt32}
    (hlength : 6 + index * 8 + 8 ≤ header.length) :
    readField header start (field, index) = .ok value ↔
      HexText value (window header (6 + index * 8) (6 + index * 8 + 8)) := by
  have height : (window header (6 + index * 8) (6 + index * 8 + 8)).length = 8 := by
    rw [length_window]
    omega
  have htext : fieldText header (MAGIC.length + index * 8) =
      some (window header (6 + index * 8) (6 + index * 8 + 8)) := if_pos hlength
  rw [← hexField_eq_some height, readField, htext, Option.bind_some]
  cases hexField (window header (6 + index * 8) (6 + index * 8 + 8)) <;> simp

/-- The fields from one on are the texts of eight digits that follow its start. -/
theorem readFields_eq_ok {header : List UInt8} {start : Nat} (names : List String) {first : Nat}
    {values : List UInt32} (hlength : 6 + (first + names.length) * 8 ≤ header.length) :
    (names.zipIdx first).mapM (readField header start) = .ok values ↔
      values.length = names.length ∧ ∃ texts, List.Forall₂ HexText values texts ∧
        texts.flatten = window header (6 + first * 8) (6 + (first + names.length) * 8) := by
  induction names generalizing first values with
  | nil =>
      rw [mapM_eq_ok, List.zipIdx_nil, List.forall₂_nil_left_iff]
      constructor
      · rintro rfl
        exact ⟨rfl, [], List.Forall₂.nil, by simp⟩
      · rintro ⟨hvalues, -⟩
        exact List.length_eq_zero_iff.mp hvalues
  | cons name names ih =>
      rw [List.length_cons] at hlength
      have hafter : first + 1 + names.length = first + (names.length + 1) := by omega
      have hstart : 6 + first * 8 + 8 = 6 + (first + 1) * 8 := by omega
      have hsplit := window_append header (show 6 + first * 8 ≤ 6 + first * 8 + 8 by omega)
        (show 6 + first * 8 + 8 ≤ 6 + (first + (names.length + 1)) * 8 by omega)
      rw [List.zipIdx_cons, List.mapM_cons, bind_eq_ok, List.length_cons]
      constructor
      · rintro ⟨value, hvalue, hrest⟩
        obtain ⟨rest, htail, hvalues⟩ := bind_eq_ok.mp hrest
        cases hvalues
        rw [readField_eq_ok (by omega)] at hvalue
        obtain ⟨hcount, texts, htexts, hflatten⟩ := (ih (by omega)).mp htail
        refine ⟨by rw [List.length_cons, hcount], _ :: texts, List.Forall₂.cons hvalue htexts, ?_⟩
        rw [List.flatten_cons, hflatten, hafter, ← hstart, hsplit]
      · rintro ⟨hcount, texts, htexts, hflatten⟩
        cases htexts with
        | nil => simp at hcount
        | @cons value text rest texts hvalue htexts =>
            rw [List.flatten_cons, ← hsplit] at hflatten
            have height : (window header (6 + first * 8) (6 + first * 8 + 8)).length = 8 := by
              rw [length_window]
              omega
            obtain ⟨htext, htail⟩ := List.append_inj hflatten (hvalue.1.trans height.symm)
            refine ⟨value, (readField_eq_ok (by omega)).mpr (htext ▸ hvalue), ?_⟩
            refine bind_eq_ok.mpr ⟨rest, (ih (by omega)).mpr ⟨?_, texts, htexts, ?_⟩, rfl⟩
            · simpa using hcount
            · rw [htail, hafter, hstart]

theorem length_flatten {values : List UInt32} {texts : List (List UInt8)}
    (htexts : List.Forall₂ HexText values texts) : texts.flatten.length = 8 * values.length := by
  induction htexts with
  | nil => rfl
  | cons hvalue _ ih =>
      rw [List.flatten_cons, List.length_append, hvalue.1, ih, List.length_cons]
      omega

/-- A written header has 110 bytes. -/
theorem Header.length_written {header : Header} {bytes : List UInt8}
    (hwritten : header.Written bytes) :
    bytes.length = 110 := by
  obtain ⟨texts, htexts, rfl⟩ := hwritten
  rw [List.length_append, length_flatten htexts]
  rfl

/-! ## Entries -/

/-- Padding depends on a length modulo four only. -/
theorem padding_congr {first second : Nat} (hsame : first % 4 = second % 4) :
    padding first = padding second := by
  rw [padding, padding, hsame]

theorem aligned_padding (length : Nat) : (length + (padding length).length) % 4 = 0 := by
  rw [length_padding]
  omega

/-- A body is a name, its padding, the data and the padding of that. -/
theorem readBody_eq_ok {bytes : List UInt8} {start filesize namesize : Nat} {mode nlink : UInt32}
    {entry : Entry} (hbytes : bytes.length < 2 ^ 63) (haligned : start % 4 = 0)
    (hstart : start + 110 ≤ bytes.length) :
    readBody bytes start mode nlink filesize namesize = .ok entry ↔
      ∃ name data, (Utf8.encode name ++ [0]).length = namesize ∧ 0 ∉ Utf8.encode name ∧
        data.length = filesize ∧ Stands bytes (start + 110) ((Utf8.encode name ++ [0]) ++
          (padding (110 + namesize) ++ (data ++ padding data.length))) entry.stop ∧
        entry = ⟨start, mode, nlink, name, data, entry.stop⟩ := by
  have hpadded : padding (start + 110 + namesize) = padding (110 + namesize) :=
    padding_congr (by omega)
  have hfilled := aligned_padding (start + 110 + namesize)
  rw [hpadded] at hfilled
  have hpaddedData : ∀ length, padding (start + 110 + namesize + (padding (110 + namesize)).length +
      length) = padding length := fun length => padding_congr (by omega)
  simp only [readBody, bind_eq_ok, word_eq_ok, HEADER_BYTES]
  rw [Words.add_fits (by omega)]
  simp only [Option.some.injEq, exists_eq_left', take_eq_ok hbytes hstart, readName_eq_ok]
  constructor
  · rintro ⟨raw, ⟨hrawLength, hraw⟩, name, ⟨rfl, hnul⟩, afterName, hafterName, dataAt, hdataAt,
      data, hdata, afterData, hafterData, stop, hstop, hentry⟩
    have hname := hraw.stop_le
    rw [Words.add_fits (by omega), Option.some.injEq] at hafterName
    obtain rfl := hafterName
    have hgap := (padded_eq_ok hbytes hname).mp hdataAt
    rw [hpadded] at hgap
    obtain ⟨hdataLength, hbody⟩ := (take_eq_ok hbytes hgap.stop_le).mp hdata
    have hend := hbody.stop_le
    rw [hdataLength, Words.add_fits (by omega), Option.some.injEq] at hafterData
    obtain rfl := hafterData
    have hrest := (padded_eq_ok hbytes hend).mp hstop
    rw [hgap.stop_eq, hpaddedData, ← hdataLength] at hrest
    cases hentry
    rw [hgap.stop_eq, ← hdataLength] at hbody
    exact ⟨name, data, hrawLength, hnul, hdataLength,
      hraw.append ((hgap.stop_eq ▸ hgap).append (hbody.append hrest)), rfl⟩
  · rintro ⟨name, data, hrawLength, hnul, rfl, hstands, hentry⟩
    obtain ⟨hraw, hafter⟩ := hstands.split
    obtain ⟨hgap, hafter⟩ := hafter.split
    obtain ⟨hbody, hrest⟩ := hafter.split
    rw [hrawLength] at hraw hgap hbody hrest
    have hname := hraw.stop_le
    have hend := hbody.stop_le
    refine ⟨_, ⟨hrawLength, hraw⟩, name, ⟨rfl, hnul⟩, start + 110 + namesize,
      Words.add_fits (by omega), _, (padded_eq_ok hbytes hname).mpr (hpadded.symm ▸ hgap), data,
      (take_eq_ok hbytes hgap.stop_le).mpr ⟨rfl, hbody⟩, _, Words.add_fits (by omega), entry.stop,
      (padded_eq_ok hbytes hend).mpr ?_, by rw [← hentry]⟩
    rw [hpaddedData]
    exact hrest

/-- The bytes of a member: its header, and the rest of it. -/
theorem Member.written_iff {member : Member} {text : List UInt8} :
    member.Written text ↔ member.Sized ∧ ∃ texts,
      List.Forall₂ HexText member.header.fields texts ∧
      text = (MAGIC ++ texts.flatten) ++ (member.nameBytes ++
        (padding (110 + member.nameBytes.length) ++ (member.data ++ padding member.data.length))) := by
  constructor
  · rintro ⟨hsized, header, ⟨texts, htexts, rfl⟩, htext⟩
    exact ⟨hsized, texts, htexts, htext⟩
  · rintro ⟨hsized, texts, htexts, htext⟩
    exact ⟨hsized, _, ⟨texts, htexts, rfl⟩, htext⟩

/-- What is read at an offset is the member whose bytes stand there. -/
theorem readEntry_eq_ok {bytes : List UInt8} {start : Nat} {entry : Entry}
    (hbytes : bytes.length < 2 ^ 63) (haligned : start % 4 = 0) (hstart : start ≤ bytes.length) :
    readEntry bytes start = .ok entry ↔
      ∃ (member : Member) (text : List UInt8), member.Written text ∧
      Stands bytes start text entry.stop ∧
        entry = ⟨start, member.header.mode, member.header.nlink, member.name, member.data,
          entry.stop⟩ := by
  simp only [readEntry, bind_eq_ok, checkMagic_eq_ok, exists_const, HEADER_BYTES,
    take_eq_ok hbytes hstart]
  constructor
  · rintro ⟨hmagic, header, ⟨hheaderLength, hheader⟩, fields, hfields, hmatch⟩
    have hroom : 6 + (0 + FIELDS.length) * 8 ≤ header.length := by
      rw [hheaderLength]
      decide
    obtain ⟨-, texts, htexts, hflatten⟩ := (readFields_eq_ok FIELDS hroom).mp hfields
    have hwhole : header = MAGIC ++ texts.flatten := by
      have hfirst : header.take 6 = MAGIC := by
        have hprefix := hmagic
        rw [hheader.drop_eq, List.take_append_of_le_length (by rw [hheaderLength]; decide)] at hprefix
        exact hprefix
      have hrest : texts.flatten = header.drop 6 := by
        rw [hflatten, ← window_length_eq_drop, hheaderLength]
        rfl
      rw [hrest, ← hfirst, List.take_append_drop]
    split at hmatch
    next ino mode uid gid nlink mtime filesize devmajor devminor rdevmajor rdevminor namesize check =>
      split at hmatch
      next => simp at hmatch
      next hcheck =>
        split at hmatch
        next => simp at hmatch
        next hlong =>
          split at hmatch
          next => simp at hmatch
          next hshort =>
            obtain ⟨name, data, hname, hnul, hdata, hstands, hentry⟩ :=
              (readBody_eq_ok hbytes haligned hheader.stop_le).mp hmatch
            simp only [PATH_MAX] at hshort
            refine ⟨⟨⟨ino, mode, uid, gid, nlink, mtime, filesize, devmajor, devminor, rdevmajor,
              rdevminor, namesize, check⟩, name, data⟩, _, Member.written_iff.mpr ⟨⟨?_, ?_, ?_, ?_, ?_,
                hnul⟩, texts, htexts, rfl⟩, ?_, hentry⟩
            · exact not_not.mp hcheck
            · exact hname.symm
            · exact hdata.symm
            · rw [Member.nameBytes, hname]
              omega
            · rw [Member.nameBytes, hname]
              omega
            · rw [← hwhole]
              simp only [Member.nameBytes, hname]
              exact hheader.append hstands
    next => cases hmatch
  · rintro ⟨member, text, hwritten, hstands, hentry⟩
    obtain ⟨⟨hcheck, hname, hdata, hlong, hshort, hnul⟩, texts, htexts, rfl⟩ :=
      Member.written_iff.mp hwritten
    have hcount : (MAGIC ++ texts.flatten).length = 110 := by
      rw [List.length_append, length_flatten htexts]
      rfl
    obtain ⟨hheader, hbody⟩ := hstands.split
    rw [hcount] at hheader hbody
    have hroom : 6 + (0 + FIELDS.length) * 8 ≤ (MAGIC ++ texts.flatten).length := by
      rw [hcount]
      decide
    refine ⟨?_, _, ⟨hcount, hheader⟩, member.header.fields,
      (readFields_eq_ok FIELDS hroom).mpr ⟨rfl, texts, htexts, ?_⟩, ?_⟩
    · rw [hheader.drop_eq, List.append_assoc, List.take_left]
    · have hend : 6 + (0 + FIELDS.length) * 8 = (MAGIC ++ texts.flatten).length := by
        rw [hcount]
        decide
      rw [hend, window_length_eq_drop]
      rfl
    · simp only [Header.fields]
      rw [if_neg (not_not.mpr hcheck), if_neg (by omega), if_neg (by simp only [PATH_MAX]; omega),
        readBody_eq_ok hbytes haligned hheader.stop_le]
      rw [hname, hdata]
      exact ⟨member.name, member.data, rfl, hnul, rfl, hbody, hentry⟩

/-! ## One reading -/

/-- Eight digits spell one number. -/
theorem HexText.unique {first second : UInt32} {text : List UInt8} (hfirst : HexText first text)
    (hsecond : HexText second text) : first = second := by
  have hsame := hfirst.2.symm.trans hsecond.2
  exact UInt32.toNat_inj.mp (Option.some.inj hsame)

/-- Digits laid out in eights say one list of numbers. -/
theorem hexTexts_unique {first second : List UInt32} {texts others : List (List UInt8)}
    (hfirst : List.Forall₂ HexText first texts) (hsecond : List.Forall₂ HexText second others)
    (hflatten : texts.flatten = others.flatten) (hlength : first.length = second.length) :
    first = second := by
  induction hfirst generalizing second others with
  | nil => exact (List.length_eq_zero_iff.mp hlength.symm).symm
  | cons hvalue htexts ih =>
      cases hsecond with
      | nil => simp at hlength
      | cons hother hothers =>
          rw [List.flatten_cons, List.flatten_cons] at hflatten
          obtain ⟨rfl, hrest⟩ := List.append_inj hflatten (hvalue.1.trans hother.1.symm)
          rw [hvalue.unique hother, ih hothers hrest (by simpa using hlength)]

/-- A header is its fields. -/
theorem Header.eq_of_fields {first second : Header} (hfields : first.fields = second.fields) :
    first = second := by
  cases first
  cases second
  simpa [Header.fields] using hfields

/-- Bytes that begin with a member's begin with no other member's. -/
theorem Member.written_unique {first second : Member} {text other rest rest' : List UInt8}
    (hfirst : first.Written text) (hsecond : second.Written other)
    (hbytes : text ++ rest = other ++ rest') : first = second ∧ text = other ∧ rest = rest' := by
  obtain ⟨⟨-, hname, hdata, -⟩, texts, htexts, rfl⟩ := written_iff.mp hfirst
  obtain ⟨⟨-, hname', hdata', -⟩, texts', htexts', rfl⟩ := written_iff.mp hsecond
  have hheader : (MAGIC ++ texts.flatten).length = (MAGIC ++ texts'.flatten).length := by
    rw [List.length_append, List.length_append, length_flatten htexts, length_flatten htexts']
    rfl
  simp only [List.append_assoc] at hbytes hheader ⊢
  obtain ⟨hflatten, hbytes⟩ := List.append_inj
    (List.append_cancel_left hbytes) (by simpa using hheader)
  have hfields := Header.eq_of_fields (hexTexts_unique htexts htexts' hflatten rfl)
  rw [← hfields] at hname' hdata'
  obtain ⟨hnames, hbytes⟩ := List.append_inj hbytes (hname.symm.trans hname')
  rw [hnames] at hbytes
  obtain ⟨hbodies, hbytes⟩ := List.append_inj (List.append_cancel_left hbytes)
    (hdata.symm.trans hdata')
  rw [hbodies] at hbytes
  have hchars := Utf8.encode_injective (List.append_cancel_right hnames)
  have hsame : first = second := by
    cases first
    cases second
    simp_all
  refine ⟨hsame, ?_, List.append_cancel_left hbytes⟩
  rw [hflatten, hnames, hbodies]

/-! ## Refusals -/

/-- No panic, and an offset that a refusal names is within a limit. -/
def Bounded {α : Type} (limit : Nat) (result : Audit α) : Prop :=
  ∀ stop, result = .error stop →
    ∃ refusal, stop = .refused refusal ∧ ∀ offset, refusal.offset? = some offset → offset ≤ limit

section Bounded

variable {α β : Type} {limit : Nat}

theorem bounded_ok (value : α) : Bounded limit (.ok value : Audit α) := by
  intro stop herror
  cases herror

theorem bounded_refuse {refusal : InitramfsRefusal}
    (hoffset : ∀ offset, refusal.offset? = some offset → offset ≤ limit) :
    Bounded limit (refuse refusal : Audit α) := by
  intro stop herror
  cases herror
  exact ⟨refusal, rfl, hoffset⟩

/-- A refusal that names an offset within the limit. -/
theorem bounded_at {refusal : InitramfsRefusal} {offset : Nat} (hoffset : offset ≤ limit)
    (hnamed : refusal.offset? = some offset) : Bounded limit (refuse refusal : Audit α) := by
  refine bounded_refuse fun other hother => ?_
  rw [hnamed] at hother
  cases hother
  exact hoffset

theorem bounded_unnamed {refusal : InitramfsRefusal} (hnamed : refusal.offset? = none) :
    Bounded limit (refuse refusal : Audit α) := by
  refine bounded_refuse fun other hother => ?_
  rw [hnamed] at hother
  cases hother

/-- Two bounded steps are a bounded step. -/
theorem bounded_bind {first : Audit α} {next : α → Audit β} (hfirst : Bounded limit first)
    (hnext : ∀ value, first = .ok value → Bounded limit (next value)) :
    Bounded limit (first >>= next) := by
  intro stop herror
  cases hresult : first with
  | error other =>
      rw [hresult] at herror
      cases herror
      exact hfirst _ hresult
  | ok value =>
      rw [hresult] at herror
      exact hnext value hresult stop herror

theorem bounded_word {number : Option Nat} {value : Nat} (hnumber : number = some value) :
    Bounded limit (word number) := by
  rw [hnumber]
  exact bounded_ok value

/-- Bounded readings of each element are a bounded reading of all. -/
theorem bounded_mapM {read : α → Audit β} {list : List α}
    (hread : ∀ element ∈ list, Bounded limit (read element)) : Bounded limit (list.mapM read) := by
  induction list with
  | nil => exact bounded_ok []
  | cons head tail ih =>
      rw [List.mapM_cons]
      refine bounded_bind (hread head (by simp)) fun value _ => ?_
      refine bounded_bind (ih fun element hmem => hread element (List.mem_cons_of_mem head hmem))
        fun rest _ => ?_
      exact bounded_ok _

variable {bytes : List UInt8} {start : Nat}

theorem bounded_take {length : Nat} (hstart : start ≤ limit) :
    Bounded limit (take bytes start length) := by
  unfold take
  split
  next =>
    split
    next => exact bounded_ok _
    next => exact bounded_at hstart rfl
  next => exact bounded_at hstart rfl

theorem bounded_padded (hbytes : bytes.length < 2 ^ 63) (hstart : start ≤ bytes.length) :
    Bounded bytes.length (padded bytes start) := by
  rw [padded, nextMultipleOf_fits (by omega)]
  refine bounded_bind (bounded_word rfl) fun stop hstop => ?_
  cases word_eq_ok.mp hstop
  rw [Words.sub_fits (by omega)]
  refine bounded_bind (bounded_word rfl) fun gap hgap => ?_
  cases word_eq_ok.mp hgap
  refine bounded_bind (bounded_take hstart) fun zeros hzeros => ?_
  obtain ⟨hlength, hstands⟩ := (take_eq_ok hbytes hstart).mp hzeros
  have hstop := hstands.stop_le
  split
  next index hindex =>
    have hwithin := (List.findIdx?_eq_some_iff_getElem.mp hindex).1
    rw [Words.add_fits (by omega)]
    refine bounded_bind (bounded_word rfl) fun offset hoffset => ?_
    cases word_eq_ok.mp hoffset
    exact bounded_at (show start + index ≤ bytes.length by omega) rfl
  next => exact bounded_ok _

theorem bounded_readName {raw : List UInt8} (hstart : start ≤ limit) :
    Bounded limit (readName start raw) := by
  unfold readName
  split
  next =>
    split
    next => exact bounded_at hstart rfl
    next =>
      split
      next => exact bounded_ok _
      next => exact bounded_at hstart rfl
  next => exact bounded_at hstart rfl

theorem bounded_checkMagic (hstart : start ≤ limit) : Bounded limit (checkMagic bytes start) := by
  simp only [checkMagic]
  split
  next => exact bounded_unnamed rfl
  next =>
    split
    next =>
      split
      next => exact bounded_ok _
      next => exact bounded_at hstart rfl
    next =>
      split
      next => exact bounded_at hstart rfl
      next => exact bounded_at hstart rfl

theorem bounded_readField {header : List UInt8} {field : String × Nat} (hstart : start ≤ limit) :
    Bounded limit (readField header start field) := by
  unfold readField
  split
  next => exact bounded_ok _
  next => exact bounded_at hstart rfl

theorem bounded_readBody {filesize namesize : Nat} {mode nlink : UInt32}
    (hbytes : bytes.length < 2 ^ 63) (hstart : start + 110 ≤ bytes.length) :
    Bounded bytes.length (readBody bytes start mode nlink filesize namesize) := by
  rw [readBody, HEADER_BYTES, Words.add_fits (by omega)]
  refine bounded_bind (bounded_word rfl) fun nameAt hnameAt => ?_
  cases word_eq_ok.mp hnameAt
  refine bounded_bind (bounded_take hstart) fun raw hraw => ?_
  have hname := ((take_eq_ok hbytes hstart).mp hraw).2.stop_le
  refine bounded_bind (bounded_readName (by omega)) fun name _ => ?_
  rw [Words.add_fits (by omega)]
  refine bounded_bind (bounded_word rfl) fun afterName hafterName => ?_
  cases word_eq_ok.mp hafterName
  refine bounded_bind (bounded_padded hbytes hname) fun dataAt hdataAt => ?_
  have hdataStart := ((padded_eq_ok hbytes hname).mp hdataAt).stop_le
  refine bounded_bind (bounded_take hdataStart) fun data hdata => ?_
  obtain ⟨hlength, hstands⟩ := (take_eq_ok hbytes hdataStart).mp hdata
  have hend := hstands.stop_le
  rw [Words.add_fits (by omega)]
  refine bounded_bind (bounded_word rfl) fun afterData hafterData => ?_
  cases word_eq_ok.mp hafterData
  refine bounded_bind (bounded_padded hbytes (by omega)) fun stop _ => ?_
  exact bounded_ok _

/-- Reading an entry never panics, and refuses within the archive. -/
theorem bounded_readEntry (hbytes : bytes.length < 2 ^ 63) (hstart : start ≤ bytes.length) :
    Bounded bytes.length (readEntry bytes start) := by
  unfold readEntry
  refine bounded_bind (bounded_checkMagic hstart) fun _ _ => ?_
  refine bounded_bind (bounded_take hstart) fun header hheader => ?_
  have hroom := ((take_eq_ok hbytes hstart).mp hheader).2.stop_le
  refine bounded_bind
    (bounded_mapM fun field _ => bounded_readField hstart) fun fields hfields => ?_
  split
  next =>
    split
    next => exact bounded_at hstart rfl
    next =>
      split
      next => exact bounded_at hstart rfl
      next =>
        split
        next => exact bounded_at hstart rfl
        next => exact bounded_readBody hbytes hroom
  next hother =>
    -- There are thirteen names of fields, so there are thirteen fields.
    rw [mapM_eq_ok] at hfields
    simp only [FIELDS, List.zipIdx_cons, List.zipIdx_nil, List.forall₂_cons_left_iff,
      List.forall₂_nil_left_iff] at hfields
    obtain ⟨ino, _, -, ⟨mode, _, -, ⟨uid, _, -, ⟨gid, _, -, ⟨nlink, _, -, ⟨mtime, _, -, ⟨filesize, _, -,
      ⟨devmajor, _, -, ⟨devminor, _, -, ⟨rdevmajor, _, -, ⟨rdevminor, _, -, ⟨namesize, _, -,
        ⟨check, _, -, rfl, rfl⟩, rfl⟩, rfl⟩, rfl⟩, rfl⟩, rfl⟩, rfl⟩, rfl⟩, rfl⟩, rfl⟩, rfl⟩, rfl⟩,
          rfl⟩ := hfields
    exact absurd rfl (hother _ _ _ _ _ _ _ _ _ _ _ _ _)

end Bounded

end Plasmosome.Membrane.Initramfs
