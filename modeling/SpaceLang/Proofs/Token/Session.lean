import SpaceLang.Proofs.Source.Place
import SpaceLang.Token.Reader

/-!
# A reader stays in its source

A `Reader.Call` is one use of a reader: it reads a character, skips as many as a text has, or keeps
a token. Calls in any order make a session (`Reader.session`), and `Reader.passed` puts together the
characters that its steps read. `Reader.Passes r cs r'` says what a way from `r` to `r'` has in
common with its characters: the rest of the source loses them, and the position moves over them.
Every call passes what it reads (`Call.passes`), hence so does a session, and whatever has passed a
first part of a source stands in that source (`Reader.StandsIn`).
-/

namespace SpaceLang

namespace Reader

variable {r r' r'' : Reader} {cs ds : List Char} {source : String}

/-! ## What is passed -/

/-- The characters that `n` steps read. -/
def readBy (r : Reader) : Nat → List Char
  | 0 => []
  | n + 1 => r.read.1.toList ++ r.read.2.readBy n

theorem passes_readBy (r : Reader) (n : Nat) : r.Passes (r.readBy n) (r.advanceBy n) := by
  induction n generalizing r with
  | zero => exact .refl r
  | succ n ih => exact r.passes_advance.append (ih r.read.2)

/-! ## At the end of a source -/

theorem advanceBy_of_atEnd (h : r.atEnd) (n : Nat) : r.advanceBy n = r := by
  induction n with
  | zero => rfl
  | succ n ih => rw [advanceBy, advance_of_atEnd h, ih]

/-! ## Calls -/

/-- A use of a reader. -/
inductive Call where
  | read
  | skip (text : String)
  | keep (t : Token)

namespace Call

/-- Where a call leaves the reader. A text to skip only says how many steps are made. -/
def move : Call → Reader → Reader
  | read, r => r.read.2
  | skip text, r => r.advanceBy text.length
  | keep t, r => r.push t

/-- The characters that a call reads. -/
def passed : Call → Reader → List Char
  | read, r => r.read.1.toList
  | skip text, r => r.readBy text.length
  | keep _, _ => []

/-- The token that a call keeps. -/
def kept : Call → List Token
  | keep t => [t]
  | _ => []

theorem passes (call : Call) (r : Reader) : r.Passes (call.passed r) (call.move r) := by
  cases call with
  | read => exact r.passes_advance
  | skip text => exact r.passes_readBy text.length
  | keep t => exact (Passes.refl r).push t

theorem move_of_atEnd (call : Call) (h : r.atEnd) :
    call.move r = { r with tokens := call.kept ++ r.tokens } := by
  cases call with
  | read => exact advance_of_atEnd h
  | skip text => exact advanceBy_of_atEnd h text.length
  | keep t => rfl

end Call

/-! ## Sessions -/

/-- Calls in a row. -/
def session (r : Reader) (calls : List Call) : Reader :=
  calls.foldl (fun r call => call.move r) r

/-- The characters that calls in a row read. -/
def passed (r : Reader) : List Call → List Char
  | [] => []
  | call :: calls => call.passed r ++ (call.move r).passed calls

theorem passes_session (r : Reader) (calls : List Call) :
    r.Passes (r.passed calls) (r.session calls) := by
  induction calls generalizing r with
  | nil => exact .refl r
  | cons call calls ih => exact (call.passes r).append (ih (call.move r))

/-! ### Bytes -/

theorem utf8ByteSize_ofList_eq_zero : (String.ofList cs).utf8ByteSize = 0 ↔ cs = [] := by
  rw [String.utf8ByteSize_eq_zero_iff, ← String.toList_inj, String.toList_ofList,
    String.toList_empty]

theorem utf8ByteSize_lt_iff {text : List Char} (h : cs <+: text) (h' : ds <+: text) :
    (String.ofList cs).utf8ByteSize < (String.ofList ds).utf8ByteSize ↔
      cs.length < ds.length := by
  rcases List.prefix_or_prefix_of_prefix h h' with ⟨ws, rfl⟩ | ⟨ws, rfl⟩
  all_goals
    have hzero : (String.ofList ws).utf8ByteSize = 0 ↔ ws.length = 0 :=
      utf8ByteSize_ofList_eq_zero.trans List.length_eq_zero_iff.symm
    rw [String.ofList_append, String.utf8ByteSize_append, List.length_append]
    omega

/-- A reader in `source` behind its first part `passed`. -/
structure StandsIn (source : String) (passed : List Char) (r : Reader) : Prop where
  source_eq : r.source = source
  passed_append_rest : passed ++ r.rest = source.toList
  /-- The place splits the source between characters. -/
  place : r.place.Splits (String.ofList passed) (String.ofList r.rest)
  offset : r.place.offset.byteIdx = (String.ofList passed).utf8ByteSize
  peek?_rest : r.peek? = r.rest.head?
  peek?_source : r.peek? = source.toList[passed.length]?
  atEnd_rest : r.atEnd ↔ r.rest = []
  atEnd_source : r.atEnd ↔ passed = source.toList
  atEnd_offset : r.atEnd ↔ source.utf8ByteSize ≤ r.place.offset.byteIdx
  line : r.position.line.toNat = 1 + passed.count '\n'
  column : r.position.column.toNat = 1 + (Position.lastLine passed).length
  /-- The next step counts on without wrapping. -/
  counts : r.atEnd = false →
    r.position.line.toNat + 1 < UInt32.size ∧ r.position.column.toNat + 1 < UInt32.size
  /-- There is no next step at the end. -/
  stays : ∀ call : Call, r.atEnd → call.move r = { r with tokens := call.kept ++ r.tokens }

theorem Passes.standsIn (h : (ofString source).Passes cs r)
    (hlength : source.length < UInt32.size - 1) : StandsIn source cs r := by
  have hsource : cs ++ r.rest = source.toList := by
    rw [← h.rest_eq, rest_ofString]
  have hlen : cs.length + r.rest.length = source.length := by
    rw [← List.length_append, hsource, String.length_toList]
  obtain ⟨hline, hcolumn⟩ : r.position.At cs := by
    rw [h.position_eq]
    exact Position.at_start.after cs (by rw [List.nil_append]; omega)
  have hsame : r.source = source := h.source_eq
  have hplace : r.place.Splits (String.ofList cs) (String.ofList r.rest) :=
    splits_place (by rw [hsource, hsame])
  have hoffset : r.place.offset.byteIdx = (String.ofList cs).utf8ByteSize := by
    rw [hplace.offset_eq_rawEndPos, String.byteIdx_rawEndPos]
  have hatEnd : r.atEnd ↔ cs = source.toList := by
    rw [atEnd_iff, ← hsource]
    exact List.self_eq_append_right.symm
  refine
    { source_eq := hsame
      passed_append_rest := hsource
      place := hplace
      offset := hoffset
      peek?_rest := r.peek?_eq_head?_rest
      peek?_source := ?_
      atEnd_rest := atEnd_iff
      atEnd_source := hatEnd
      atEnd_offset := ?_
      line := by omega
      column := by omega
      counts := fun hmore => ?_
      stays := fun call => call.move_of_atEnd }
  · rw [peek?_eq_head?_rest, ← hsource, List.getElem?_append_right (Nat.le_refl _), Nat.sub_self,
      ← List.head?_eq_getElem?]
  · have hbytes := congrArg String.utf8ByteSize hplace.eq_append
    rw [String.utf8ByteSize_append, hsame] at hbytes
    rw [atEnd_iff, ← utf8ByteSize_ofList_eq_zero, hoffset]
    omega
  · -- a character is left, so fewer are passed than the counters can count
    have hpos : 0 < r.rest.length := by
      rw [List.length_pos_iff]
      intro hnil
      rw [atEnd_iff.2 hnil] at hmore
      cases hmore
    have hcount : cs.count '\n' ≤ cs.length := List.count_le_length
    have hlast := Position.length_lastLine_le cs
    omega

/-- **Every session stays in its source and keeps count.** From the beginning of a source that the
counters can count, calls in any order leave a reader in it, behind what their steps have read. The
position says how far that is: of two sessions the one that has passed more, in characters or in
bytes, is at the later position, and at the same position they have passed the same. -/
theorem session_standsIn (source : String) (hlength : source.length < UInt32.size - 1) :
    (∀ calls, StandsIn source ((ofString source).passed calls) ((ofString source).session calls)) ∧
    ∀ calls calls',
      let r := (ofString source).session calls
      let r' := (ofString source).session calls'
      (r.position < r'.position ↔ ((ofString source).passed calls).length <
        ((ofString source).passed calls').length) ∧
      (r.position < r'.position ↔ r.place.offset.byteIdx < r'.place.offset.byteIdx) ∧
      (r.position = r'.position ↔
        (ofString source).passed calls = (ofString source).passed calls') := by
  have hstands : ∀ calls, StandsIn source ((ofString source).passed calls)
      ((ofString source).session calls) := fun calls => (passes_session _ calls).standsIn hlength
  refine ⟨hstands, ?_⟩
  intro calls calls' r r'
  have hfirst : ∀ calls, (ofString source).passed calls <+: source.toList := fun calls =>
    ⟨_, (hstands calls).passed_append_rest⟩
  have hposition : ∀ calls, ((ofString source).session calls).position =
      Position.start.after ((ofString source).passed calls) := fun calls =>
    (passes_session _ calls).position_eq
  have hlen : source.toList.length < UInt32.size - 1 := by rwa [String.length_toList]
  have hbytes := utf8ByteSize_lt_iff (hfirst calls) (hfirst calls')
  have horder := Position.after_lt_after_iff (hfirst calls) (hfirst calls') hlen
  rw [hposition calls, hposition calls', (hstands calls).offset, (hstands calls').offset]
  refine ⟨horder, horder.trans hbytes.symm, ?_, ?_⟩
  · exact Position.after_inj (hfirst calls) (hfirst calls') hlen
  · exact fun h => by rw [h]

/-- A skip that goes on for longer than the source, over a line end and characters of two and of
four bytes. -/
theorem session_standsIn_skip :
    let calls : List Call := [.read, .skip "more than is left"]
    "é\n𝄞".length < UInt32.size - 1 ∧
    StandsIn "é\n𝄞" ['é', '\n', '𝄞'] ((ofString "é\n𝄞").session calls) ∧
    ((ofString "é\n𝄞").session [.read]).position <
      ((ofString "é\n𝄞").session calls).position ∧
    ((ofString "é\n𝄞").session [.read]).place.offset.byteIdx = 2 ∧
    ((ofString "é\n𝄞").session calls).place.offset.byteIdx = 7 := by
  intro calls
  have hlength : "é\n𝄞".length < UInt32.size - 1 := by decide
  have hpassed : (ofString "é\n𝄞").passed calls = ['é', '\n', '𝄞'] := by decide
  have hread : (ofString "é\n𝄞").passed [.read] = ['é'] := by decide
  obtain ⟨hstands, horder⟩ := session_standsIn "é\n𝄞" hlength
  have hoffset := (hstands [.read]).offset
  have hoffset' := (hstands calls).offset
  rw [hread] at hoffset
  rw [hpassed] at hoffset'
  exact ⟨hlength, hpassed ▸ hstands calls, (horder _ _).1.2 (by rw [hpassed, hread]; decide),
    hoffset, hoffset'⟩

end Reader

end SpaceLang
