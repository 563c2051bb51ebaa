import Mathlib.Data.List.Infix
import Stencil.Proofs.FileTree.Paths
import Stencil.Proofs.Number.Numerals
import Stencil.Proofs.Template.Paths

/-!
# Paths and their texts

The parts of a path are taken off its text one after another: the mark of data variables and the
steps outwards in front, the slice behind, then the word for the current value, and what is left are
the segments. In the full form of a path no part can be taken for another one, so it is read as the
path that it writes, whatever separators are chosen.

## Main definitions

* `Path.lead` - the text in front of the word for the current value

Main statements: `Path.read_lead`, `Path.parse_spell`.
-/

namespace Stencil

open Text

/-! ### Slices -/

theorem Number.isDigits_digits (n : Nat) : isDigits (digits n) = true := by
  have hall : (digits n).all isDigit = true := List.all_eq_true.2 fun _ => isDigit_of_mem_digits
  simp [isDigits, digits_ne_nil, hall]

/-- Digits without a sign are read as the number that they write, if it is below the bound. -/
theorem Number.readNatural?_of_isDigits {bound : Nat} {ds : List Char} (hds : isDigits ds = true)
    (hbound : ofDigits ds < bound) : readNatural? bound ds = some (ofDigits ds) := by
  have hsign : ∀ rest, ds ≠ '+' :: rest := by
    rintro rest rfl
    simp [isDigits, isDigit] at hds
  unfold readNatural?
  split
  · next rest => exact absurd rfl (hsign rest)
  · dsimp only
    rw [hds, Bool.true_and, if_pos (decide_eq_true hbound)]

namespace Path

variable {text body front : List Char} {segments : List String} {slice : Option Slice}

/-- Between its brackets a slice is read from any digits that write its numbers. -/
theorem readSlice?_of_isDigits {start len : List Char} (hstart : Number.isDigits start = true)
    (hlen : Number.isDigits len = true) (hstart' : Number.ofDigits start < 2 ^ 64)
    (hlen' : Number.ofDigits len < 2 ^ 64) :
    readSlice? (start ++ ':' :: len) =
      some ⟨UInt64.ofNat (Number.ofDigits start), UInt64.ofNat (Number.ofDigits len)⟩ := by
  have hsplit : splitAtMark? [':'] (start ++ ':' :: len) = some (start, len) := by
    refine (splitAtMark?_eq_some_iff (by decide)).2 ⟨by simp, ?_⟩
    have hall : start.all Number.isDigit = true := (Bool.and_eq_true_iff.1 hstart).2
    have hmark : ':' ∉ start := fun hmem => absurd (List.all_eq_true.1 hall _ hmem) (by decide)
    simpa [List.singleton_infix_iff] using hmark
  have hstart' : Number.ofDigits start < Nat.pow 2 64 := hstart'
  have hlen' : Number.ofDigits len < Nat.pow 2 64 := hlen'
  simp [readSlice?, hsplit, hstart, hlen, Number.readNatural?_of_isDigits hstart hstart',
    Number.readNatural?_of_isDigits hlen hlen']

/-- A slice is taken off the end of a text without brackets. -/
theorem takeSlice_append {inner : List Char} {s : Slice} (hfront : '[' ∉ front)
    (hinner : readSlice? inner = some s) :
    takeSlice (front ++ '[' :: inner ++ [']']) = .ok (front, some s) := by
  have hsplit : splitAtMark? ['['] (front ++ '[' :: inner ++ [']']) =
      some (front, inner ++ [']']) := by
    refine (splitAtMark?_eq_some_iff (by decide)).2 ⟨by simp, ?_⟩
    simpa [List.singleton_infix_iff] using hfront
  have hclose : dropLastChar? ']' (inner ++ [']']) = some inner := dropLastChar?_eq_some.2 rfl
  rw [takeSlice, hsplit]
  dsimp only
  rw [hclose]
  dsimp only
  rw [hinner]

theorem takeSlice_spell (hfront : '[' ∉ front) (s : Slice) :
    takeSlice (front ++ s.spell) = .ok (front, some s) := by
  have hinner : readSlice? (Number.digits s.start.toNat ++ ':' :: Number.digits s.len.toNat) =
      some s := by
    rw [readSlice?_of_isDigits (Number.isDigits_digits _) (Number.isDigits_digits _)
      (by rw [Number.ofDigits_digits]; exact s.start.toNat_lt)
      (by rw [Number.ofDigits_digits]; exact s.len.toNat_lt), Number.ofDigits_digits,
      Number.ofDigits_digits, UInt64.ofNat_toNat, UInt64.ofNat_toNat]
  have h := takeSlice_append hfront hinner
  rwa [List.append_assoc] at h

theorem takeSlice_of_not_mem (hopen : '[' ∉ text) (hclose : ']' ∉ text) :
    takeSlice text = .ok (text, none) := by
  have hsplit : splitAtMark? ['['] text = none :=
    splitAtMark?_eq_none (by simpa [List.singleton_infix_iff] using hopen)
  rw [takeSlice, hsplit]
  dsimp only
  rw [if_neg hclose]

/-! ### Segments -/

/-- Each segment behind a separator of its own. -/
def joinSegments (parts : List (Char × List Char)) : List Char :=
  parts.flatMap fun (separator, segment) => separator :: segment

variable {parts : List (Char × List Char)}

/-- What stands between separators is found again, if there are none in it. -/
theorem splitOn_joinSegments {isMark : Char → Bool} (hparts : ∀ part ∈ parts, isMark part.1)
    (hsegments : ∀ part ∈ parts, ∀ c ∈ part.2, isMark c = false) {segment : List Char}
    (hfirst : ∀ c ∈ segment, isMark c = false) :
    splitOn isMark (segment ++ joinSegments parts) = segment :: parts.map Prod.snd := by
  rw [splitOn_eq_splitOnP]
  induction parts generalizing segment with
  | nil => simpa [joinSegments] using List.splitOnP_eq_singleton hfirst
  | cons part parts ih =>
    obtain ⟨separator, next⟩ := part
    obtain ⟨hmark, hparts⟩ := List.forall_mem_cons.1 hparts
    obtain ⟨hnext, hsegments⟩ := List.forall_mem_cons.1 hsegments
    show (segment ++ separator :: (next ++ joinSegments parts)).splitOnP isMark = _
    rw [List.splitOnP_append_cons _ _ hmark, List.splitOnP_eq_singleton hfirst,
      ih hparts hsegments hnext]
    rfl

/-- A separator can stand in a path, and the segment behind it as well. -/
def IsPart (part : Char × List Char) : Prop :=
  (part.1 = '.' ∨ part.1 = '/') ∧ part.2 ≠ [] ∧ ∀ c ∈ part.2, isSegmentChar c

theorem isSegmentChar_iff {c : Char} :
    isSegmentChar c ↔ ¬ isBlank c ∧ c ≠ '.' ∧ c ≠ '/' ∧ c ∉ reserved := by
  simp [isSegmentChar, and_assoc]

/-- Behind the word for the current value the segments are read as they are. -/
theorem readSegments_dropThis (hparts : ∀ part ∈ parts, IsPart part) :
    readSegments (dropThis (['t', 'h', 'i', 's'] ++ joinSegments parts)) =
      .ok (parts.map fun part => String.ofList part.2) := by
  cases parts with
  | nil => rfl
  | cons part parts =>
    obtain ⟨separator, segment⟩ := part
    have hsegment := hparts _ (.head _)
    obtain ⟨hseparator, hne, hchars⟩ := hsegment
    have hdrop : dropThis (['t', 'h', 'i', 's'] ++ joinSegments ((separator, segment) :: parts)) =
        segment ++ joinSegments parts := by
      rcases hseparator with rfl | rfl
      · rfl
      · rfl
    have hsplit : splitOn (fun c => c = '.' || c = '/') (segment ++ joinSegments parts) =
        segment :: parts.map Prod.snd := by
      refine splitOn_joinSegments (fun part hpart => ?_) (fun part hpart c hc => ?_) fun c hc => ?_
      · simpa using (hparts part (.tail _ hpart)).1
      · have hchar := isSegmentChar_iff.1 ((hparts part (.tail _ hpart)).2.2 c hc)
        simp [hchar.2.1, hchar.2.2.1]
      · have hchar := isSegmentChar_iff.1 (hchars c hc)
        simp [hchar.2.1, hchar.2.2.1]
    have hcheck : checkSegments (segment :: parts.map Prod.snd) = .ok () := by
      refine checkSegments_eq_ok.2 fun piece hpiece => ?_
      obtain ⟨part, hpart, rfl⟩ : ∃ part ∈ (separator, segment) :: parts, part.2 = piece := by
        rw [← List.mem_map]
        exact hpiece
      obtain ⟨-, hne, hchars⟩ := hparts part hpart
      refine ⟨hne, fun c hc => ?_⟩
      have hchar := isSegmentChar_iff.1 (hchars c hc)
      exact ⟨hchar.1, hchar.2.2.2⟩
    have htext : segment ++ joinSegments parts ≠ [] := by simp [hne]
    rw [hdrop, readSegments]
    rw [if_neg htext, hsplit, hcheck]
    simp [bind, Except.bind, pure, Except.pure, Function.comp_def]

/-! ### The whole text -/

/-- The text in front of a path: the mark of data variables, and the steps outwards. -/
def lead (data : Bool) (depth : Nat) : List Char :=
  (if data then ['@'] else []) ++ (List.replicate depth ['.', '.', '/']).flatten

/-- Steps outwards are taken off the front of a text. -/
theorem takeSteps_replicate (steps : Nat) (text : List Char) :
    takeSteps ((List.replicate steps ['.', '.', '/']).flatten ++ text) =
      ((takeSteps text).1 + steps, (takeSteps text).2) := by
  induction steps with
  | zero => rfl
  | succ steps ih =>
    show takeSteps ('.' :: '.' :: '/' ::
      ((List.replicate steps ['.', '.', '/']).flatten ++ text)) = _
    rw [takeSteps, ih]
    rfl

/-- Reads the parts of the path `text` behind the mark of data variables, which stand in `rest`. -/
def readParts (text : List Char) (data : Bool) (rest : List Char) : Except PathFault Path := do
  let (front, slice) ← takeSlice (takeSteps rest).2
  let segments ← readSegments (dropThis front)
  if data && segments.isEmpty then throw .namelessVariable
  return ⟨String.ofList text, data, (takeSteps rest).1, segments, slice⟩

theorem read_mark (rest : List Char) : read ('@' :: rest) = readParts ('@' :: rest) true rest :=
  rfl

theorem read_of_head? (hne : text ≠ []) (hmark : text.head? ≠ some '@') :
    read text = readParts text false text := by
  rw [read, if_neg hne]
  · rfl
  · rintro rest rfl
    exact hmark rfl

/-- The parts are read one after another. -/
theorem readParts_eq_ok {data : Bool} {rest : List Char} {p : Path} :
    readParts text data rest = .ok p ↔ ∃ front slice segments,
      takeSlice (takeSteps rest).2 = .ok (front, slice) ∧
        readSegments (dropThis front) = .ok segments ∧ (data → segments ≠ []) ∧
        p = ⟨String.ofList text, data, (takeSteps rest).1, segments, slice⟩ := by
  simp only [readParts, bind_eq_ok, Prod.exists]
  refine exists_congr fun front => exists_congr fun slice => ?_
  rw [← exists_and_left]
  refine exists_congr fun segments => and_congr_right fun _ => and_congr_right fun _ => ?_
  split
  · next hunnamed =>
    have hnot : ¬ (data → segments ≠ []) := by simpa using hunnamed
    simp [hnot, throw, throwThe, MonadExceptOf.throw, bind, Except.bind]
  · next hnamed =>
    have hnamed : data → segments ≠ [] := by simpa using hnamed
    rw [and_iff_right hnamed]
    simp [pure, Except.pure, @eq_comm _ _ p]

/-- What stands in front of a path is taken off, if nothing more of this kind follows. -/
theorem read_lead {data : Bool} {depth : Nat} (hbody : body ≠ []) (hmark : body.head? ≠ some '@')
    (hsteps : takeSteps body = (0, body)) (hslice : takeSlice body = .ok (front, slice))
    (hsegments : readSegments (dropThis front) = .ok segments) (hnamed : data → segments ≠ []) :
    read (lead data depth ++ body) =
      .ok ⟨String.ofList (lead data depth ++ body), data, depth, segments, slice⟩ := by
  have htaken := takeSteps_replicate depth body
  rw [hsteps, Nat.zero_add] at htaken
  have hread : read (lead data depth ++ body) = readParts (lead data depth ++ body) data
      ((List.replicate depth ['.', '.', '/']).flatten ++ body) := by
    cases data with
    | true => exact read_mark _
    | false =>
      refine read_of_head? (by simp [hbody]) ?_
      cases depth with
      | zero => exact hmark
      | succ depth => exact nofun
  rw [hread, readParts_eq_ok, htaken]
  exact ⟨front, slice, segments, hslice, hsegments, hnamed, rfl⟩

/-- The segments of a path, each with its separator. -/
def separated (p : Path) (separators : List Char) : List (Char × List Char) :=
  p.segments.zipIdx.map fun (segment, i) => (separators.getD i '.', segment.toList)

section Spelling

variable {p : Path} {separators : List Char}

theorem spell_eq (p : Path) (separators : List Char) :
    p.spell separators = lead p.data p.depth ++ (['t', 'h', 'i', 's'] ++
      joinSegments (p.separated separators) ++ (p.slice.map Slice.spell).getD []) := by
  obtain ⟨raw, data, depth, segments, slice⟩ := p
  cases slice with
  | none => simp [spell, joinSegments, separated, List.flatMap_map, lead]
  | some s => simp [spell, joinSegments, separated, List.flatMap_map, lead]

theorem map_separated (p : Path) (separators : List Char) :
    ((p.separated separators).map fun part => String.ofList part.2) = p.segments := by
  simp [separated, Function.comp_def]

theorem isPart_of_mem_separated (hp : p.IsWellFormed)
    (hseparators : ∀ c ∈ separators, c = '.' ∨ c = '/') {part : Char × List Char}
    (hpart : part ∈ p.separated separators) : IsPart part := by
  obtain ⟨⟨segment, i⟩, hmem, rfl⟩ := List.mem_map.1 hpart
  obtain ⟨hne, hchars⟩ := hp.segments segment (List.fst_mem_of_mem_zipIdx hmem)
  refine ⟨?_, by simpa using hne, hchars⟩
  show separators.getD i '.' = '.' ∨ separators.getD i '.' = '/'
  rw [List.getD_eq_getElem?_getD]
  cases hget : separators[i]? with
  | none => exact .inl rfl
  | some c => exact hseparators c (List.mem_of_getElem? hget)

/-- The characters of the word for the current value and of the segments behind it: there are no
brackets and no blanks among them. -/
theorem mem_joinSegments (hparts : ∀ part ∈ parts, IsPart part) {c : Char}
    (hc : c ∈ ['t', 'h', 'i', 's'] ++ joinSegments parts) :
    ¬ isBlank c ∧ c ≠ '[' ∧ c ≠ ']' := by
  rcases List.mem_append.1 hc with hthis | hsegments
  · simp only [List.mem_cons, List.not_mem_nil, or_false] at hthis
    rcases hthis with rfl | rfl | rfl | rfl <;> decide
  · obtain ⟨⟨separator, segment⟩, hpart, hc⟩ := List.mem_flatMap.1 hsegments
    obtain ⟨hseparator, -, hchars⟩ := hparts _ hpart
    rcases List.mem_cons.1 hc with rfl | hc
    · rcases hseparator with rfl | rfl
      · decide
      · decide
    · obtain ⟨hblank, -, -, hreserved⟩ := isSegmentChar_iff.1 (hchars c hc)
      refine ⟨hblank, ?_, ?_⟩
      · rintro rfl
        exact hreserved (by decide)
      · rintro rfl
        exact hreserved (by decide)

theorem not_isBlank_of_mem_lead {data : Bool} {depth : Nat} {c : Char} (hc : c ∈ lead data depth) :
    ¬ isBlank c := by
  rcases List.mem_append.1 hc with hmark | hsteps
  · split at hmark
    · obtain rfl := List.mem_singleton.1 hmark
      decide
    · cases hmark
  · obtain ⟨step, hstep, hc⟩ := List.mem_flatten.1 hsteps
    obtain rfl := List.eq_of_mem_replicate hstep
    simp only [List.mem_cons, List.not_mem_nil, or_false] at hc
    rcases hc with rfl | rfl | rfl <;> decide

theorem not_isBlank_of_mem_slice {s : Slice} {c : Char} (hc : c ∈ s.spell) : ¬ isBlank c := by
  simp only [Slice.spell, List.cons_append, List.mem_append, List.mem_cons, List.not_mem_nil,
    or_false] at hc
  rcases hc with rfl | (hc | rfl | hc) | rfl
  · decide
  · exact Number.not_isBlank_of_isDigit (Number.isDigit_of_mem_digits hc)
  · decide
  · exact Number.not_isBlank_of_isDigit (Number.isDigit_of_mem_digits hc)
  · decide

/-- There are no blanks around the full form of a path. -/
theorem trim_spell (hp : p.IsWellFormed) (hseparators : ∀ c ∈ separators, c = '.' ∨ c = '/') :
    trim (p.spell separators) = p.spell separators := by
  have hchars : ∀ c ∈ p.spell separators, ¬ isBlank c := by
    intro c hc
    rw [spell_eq, List.mem_append, List.mem_append] at hc
    rcases hc with hc | hc | hc
    · exact not_isBlank_of_mem_lead hc
    · exact (mem_joinSegments (fun part => isPart_of_mem_separated hp hseparators) hc).1
    · cases hslice : p.slice with
      | none => simp [hslice] at hc
      | some s => exact not_isBlank_of_mem_slice (by simpa [hslice] using hc)
  exact trim_eq_self_of_forall hchars

theorem read_spell (hp : p.IsWellFormed) (hseparators : ∀ c ∈ separators, c = '.' ∨ c = '/') :
    read (p.spell separators) = .ok { p with raw := String.ofList (p.spell separators) } := by
  have hparts : ∀ part ∈ p.separated separators, IsPart part :=
    fun part => isPart_of_mem_separated hp hseparators
  have hopen : '[' ∉ ['t', 'h', 'i', 's'] ++ joinSegments (p.separated separators) :=
    fun hmem => (mem_joinSegments hparts hmem).2.1 rfl
  have hclose : ']' ∉ ['t', 'h', 'i', 's'] ++ joinSegments (p.separated separators) :=
    fun hmem => (mem_joinSegments hparts hmem).2.2 rfl
  have hslice : takeSlice (['t', 'h', 'i', 's'] ++ joinSegments (p.separated separators) ++
      (p.slice.map Slice.spell).getD []) =
        .ok (['t', 'h', 'i', 's'] ++ joinSegments (p.separated separators), p.slice) := by
    cases p.slice with
    | none => simpa using takeSlice_of_not_mem hopen hclose
    | some s => exact takeSlice_spell hopen s
  have hsegments := readSegments_dropThis hparts
  rw [map_separated] at hsegments
  rw [spell_eq]
  exact read_lead (by simp) (by simp) rfl hslice hsegments hp.data

end Spelling

/-- **Paths and their texts.** A path that can be written is read from its full form, whatever
separators stand in front of its segments: all its parts come back, and the text is kept. And what
is read from any text is a path that can be written. -/
theorem parse_spell (line : Nat) :
    (∀ (p : Path) (separators : List Char), p.IsWellFormed →
      (∀ c ∈ separators, c = '.' ∨ c = '/') →
        Path.parse line (p.spell separators) =
          .ok { p with raw := String.ofList (p.spell separators) }) ∧
    ∀ (text : List Char) (p : Path), Path.parse line text = .ok p → p.IsWellFormed := by
  refine ⟨fun p separators hp hseparators => ?_, fun text p => isWellFormed_of_parse⟩
  rw [Path.parse, trim_spell hp hseparators, read_spell hp hseparators]

/-- A variable of a loop two frames outwards, with segments that look like other parts of a path,
and the longest slice. -/
theorem parse_spell_data :
    let p : Path := ⟨"", true, 2, ["this", "0"], some ⟨1, 18446744073709551615⟩⟩
    let text := "@../../this/this.0[1:18446744073709551615]"
    let bare : Path := ⟨"./a", false, 0, ["a"], none⟩
    (p.IsWellFormed ∧ p.spell ['/'] = text.toList ∧
      Path.parse 3 text.toList = .ok { p with raw := text }) ∧
    (Path.parse 3 " ./a".toList = .ok bare ∧ bare.IsWellFormed) := by
  intro p text bare
  have hsegments : (p.segments.all fun segment =>
      segment != "" && segment.toList.all isSegmentChar) = true := by decide +kernel
  have hp : p.IsWellFormed := by
    refine ⟨fun segment hmem => ?_, fun _ => List.cons_ne_nil _ _⟩
    simpa using List.all_eq_true.1 hsegments segment hmem
  have htext : p.spell ['/'] = text.toList := by decide +kernel
  have hbare : Path.parse 3 " ./a".toList = .ok bare := by cbv
  have hread := (parse_spell 3).1 p ['/'] hp (by simp)
  rw [htext, String.ofList_toList] at hread
  exact ⟨⟨hp, htext, hread⟩, hbare, (parse_spell 3).2 _ _ hbare⟩

end Path

end Stencil
