import Mathlib
import TigerMips.Analysis.Program
import TigerMips.Machine.Print
import TigerMips.Proofs.Text.Plain
import TigerMips.Select.Program

/-! What an assembler reads in the data section of a listing. A listing is made plain as a whole, with its literals, so
the characters that are removed are missing in the data. -/

namespace TigerMips

namespace Machine

open Text Text.Reading

def unquote : List Char → Option (List Char)
  | [] => none
  | ['"'] => some []
  | '"' :: _ => none
  | '\\' :: 'n' :: rest => (unquote rest).map ('\n' :: ·)
  | '\\' :: 't' :: rest => (unquote rest).map ('\t' :: ·)
  | '\\' :: '"' :: rest => (unquote rest).map ('"' :: ·)
  | '\\' :: '\\' :: rest => (unquote rest).map ('\\' :: ·)
  | '\\' :: _ => none
  | c :: rest => (unquote rest).map (c :: ·)

def directive? (line : List Char) : Option (String × String) :=
  match line.dropWhile (· ≠ ':') with
  | ':' :: ' ' :: '.' :: 'a' :: 's' :: 'c' :: 'i' :: 'i' :: 'z' :: ' ' :: '"' :: rest =>
    (unquote rest).map fun text => (String.ofList (line.takeWhile (· ≠ ':')), String.ofList text)
  | _ => none

def dataLines (text : String) : List (List Char) :=
  ((text.toList.splitOn '\n').dropWhile (· ≠ "    .data".toList)).tail

def directives (text : String) : List (String × String) := (dataLines text).filterMap directive?

def isKept (c : Char) : Bool := c = '\n' || c = '\t' || isShown c

lemma unquote_cons {c : Char} (hq : c ≠ '"') (hb : c ≠ '\\') (rest : List Char) :
    unquote (c :: rest) = (unquote rest).map (c :: ·) := by
  rw [unquote]
  all_goals simp_all

lemma unquote_literalChar (c : Char) (rest : List Char) :
    unquote ((literalChar c).toList ++ rest) = (unquote rest).map (c :: ·) := by
  unfold literalChar
  split
  · subst c
    rfl
  split
  · subst c
    rfl
  split
  · subst c
    rfl
  split
  · subst c
    rfl
  · rw [show c.toString.toList = [c] by simp]
    exact unquote_cons ‹_› ‹_› rest

lemma unquote_literal (text : List Char) :
    unquote (text.flatMap (fun c => (literalChar c).toList) ++ ['"']) = some text := by
  induction text with
  | nil => rfl
  | cons c rest ih => rw [List.flatMap_cons, List.append_assoc, unquote_literalChar, ih, Option.map_some]

lemma mem_unquote {quotation text : List Char} (h : unquote quotation = some text) {c : Char} (hc : c ∈ text) :
    c = '\n' ∨ c = '\t' ∨ c ∈ quotation := by
  fun_induction unquote quotation generalizing text with
  | case1 | case3 | case8 => cases h
  | case2 =>
    obtain rfl := Option.some.inj h
    cases hc
  | case4 rest ih | case5 rest ih | case6 rest ih | case7 rest ih | case9 d rest _ _ _ _ _ _ _ ih =>
    obtain ⟨found, hfound, rfl⟩ := Option.map_eq_some_iff.mp h
    rcases List.mem_cons.mp hc with rfl | hc
    · simp
    · have := ih hfound hc
      simp only [List.mem_cons]
      tauto

lemma all_literalChar {p : Char → Bool} (hp : ∀ c, isShown c → p c) {c : Char} (h : c ≠ '\n' → c ≠ '\t' → p c) :
    (literalChar c).toList.all p := by
  have hshown : ∀ {text : String}, isOneLine text → text.toList.all p := fun ht =>
    List.all_eq_true.mpr fun c hc => hp c (isOneLine_iff.mp ht c hc)
  unfold literalChar
  split
  · exact hshown rfl
  split
  · exact hshown rfl
  split
  · exact hshown rfl
  split
  · exact hshown rfl
  · simpa using h ‹_› ‹_›

lemma isShown_of_isKept {c : Char} (h : isKept c) (hline : c ≠ '\n') (htab : c ≠ '\t') : isShown c := by
  simpa [isKept, hline, htab] using h

namespace Program

variable {program : Program}

lemma mem_label {label : Label} {c : Char} (h : c ∈ label.text.toList) : c = 'L' ∨ c.isDigit := by
  rw [Label.text, String.toList_append] at h
  rcases List.mem_append.mp h with h | h
  · exact Or.inl (List.mem_singleton.mp h)
  · have hdigits : c ∈ Nat.toDigits 10 label.number := by rwa [← Nat.toList_repr]
    exact Or.inr (Nat.isDigit_of_mem_toDigits (by decide) (by decide) hdigits)

lemma isOneLine_label (label : Label) : isOneLine label.text := isOneLine_append.trans (isOneLine_nat label.number)

lemma all_literalLine {p : Char → Bool} (hp : ∀ c, isShown c → p c) {entry : Label × String}
    (h : ∀ c ∈ entry.2.toList, c ≠ '\n' → c ≠ '\t' → p c) : (literalLine entry).toList.all p := by
  have hshown : ∀ {text : String}, isOneLine text → text.toList.all p := fun ht =>
    List.all_eq_true.mpr fun c hc => hp c (isOneLine_iff.mp ht c hc)
  have hjoin : (String.join (entry.2.toList.map literalChar)).toList.all p := List.all_eq_true.mpr fun c hc => by
    rw [String.toList_join] at hc
    obtain ⟨text, hm, hc⟩ := List.mem_flatMap.mp hc
    obtain ⟨d, hd, rfl⟩ := List.mem_map.mp hm
    exact List.all_eq_true.mp (all_literalChar hp (h d hd)) c hc
  have hcolon := hshown (show isOneLine ": .asciiz " from rfl)
  have hquote := hshown (show isOneLine "\"" from rfl)
  simp only [literalLine, literal, String.toList_append, List.all_append, hshown (isOneLine_label _), hcolon, hquote,
    hjoin, Bool.and_self]

lemma directive?_literalLine (entry : Label × String) :
    directive? (literalLine entry).toList = some (entry.1.text, entry.2) := by
  have hlabel : ∀ c ∈ entry.1.text.toList, decide (c ≠ ':') = true := fun c hc => by
    rcases mem_label hc with rfl | hc
    · rfl
    · exact decide_eq_true fun he => by rw [he] at hc; exact absurd hc (by decide)
  have hline : (literalLine entry).toList = entry.1.text.toList ++
      ':' :: ' ' :: '.' :: 'a' :: 's' :: 'c' :: 'i' :: 'i' :: 'z' :: ' ' :: '"' ::
        (entry.2.toList.flatMap (fun c => (literalChar c).toList) ++ ['"']) := by
    simp [literalLine, literal, List.flatMap_map]
  rw [directive?, hline, List.dropWhile_append_of_pos hlabel, List.takeWhile_append_of_pos hlabel]
  simp [unquote_literal]

lemma isOneLine_tempName (temp : Temp) : isOneLine (program.tempName temp) := by
  have hnames : ∀ entry ∈ program.registers.named, isOneLine entry.2 := by
    simp only [Registers.named, List.forall_mem_cons]
    exact ⟨rfl, rfl, rfl, rfl, rfl, rfl, rfl, by simp⟩
  unfold tempName
  cases h : program.registers.name? temp with
  | none => exact isOneLine_append.trans (isOneLine_nat temp.number)
  | some name =>
    obtain ⟨before, after, hnamed, -⟩ := List.lookup_eq_some_iff.mp h
    exact hnames (temp, name) (by simp [hnamed])

lemma isOneLine_mnemonic {name : String} {operands : List String} (hname : isOneLine name)
    (h : ∀ operand ∈ operands, isOneLine operand) : isOneLine (mnemonic false name operands) := by
  have hoperands : isOneLine (String.intercalate ", " operands) := String.all_intercalate rfl h
  simp only [mnemonic, Color.paint_false, isOneLine_append, hname, hoperands]
  rfl

lemma isOneLine_operation (operation : Operation) {name : Temp → String} (hname : ∀ temp, isOneLine (name temp)) :
    isOneLine (operation.text false name) := by
  have haddress : ∀ base offset, isOneLine (addressText false name base offset) := fun base offset => by
    simp only [addressText, wordText, Color.paint_false, isOneLine_append, isOneLine_word, hname]
    rfl
  have hlabel : ∀ label : Label, isOneLine (label.reference false) := isOneLine_label
  have hword : ∀ value, isOneLine (wordText false value) := isOneLine_word
  have himmediate : ∀ immediate : Immediate, isOneLine (immediate.text false) := by
    rintro (value | frame | frame)
    · exact isOneLine_word value
    all_goals
      simp only [Immediate.text, Color.paint_false, isOneLine_append, isOneLine_nat]
      rfl
  cases operation with
  | arithmetic operator destination lhs rhs =>
    refine isOneLine_mnemonic ?_ (by simp [hname])
    cases operator with
    | compare relation => cases relation <;> rfl
    | add | sub | mul | div => rfl
  | addImmediate destination source immediate => exact isOneLine_mnemonic rfl (by simp [hname, himmediate])
  | setLessImmediate destination source immediate => exact isOneLine_mnemonic rfl (by simp [hname, hword])
  | negate destination source | move destination source => exact isOneLine_mnemonic rfl (by simp [hname])
  | loadImmediate destination immediate => exact isOneLine_mnemonic rfl (by simp [hname, hword])
  | loadAddress destination label => exact isOneLine_mnemonic rfl (by simp [hname, hlabel])
  | load width destination base offset | store width destination base offset =>
    exact isOneLine_mnemonic (by cases width <;> rfl) (by simp [hname, haddress])
  | jump target | jumpAndLink target => exact isOneLine_mnemonic rfl (by simp [hlabel])
  | jumpRegister register => exact isOneLine_mnemonic rfl (by simp [hname])
  | branch relation lhs rhs target => exact isOneLine_mnemonic (by cases relation <;> rfl) (by simp [hname, hlabel])
  | syscall service =>
    simp only [Operation.text, Color.paint_false]
    cases service <;> rfl
  | save | restore =>
    simp only [Operation.text, Color.paint_false]
    rfl

lemma space_mem_operation (operation : Operation) (name : Temp → String) :
    ' ' ∈ (operation.text false name).toList := by
  cases operation <;> simp [Operation.text, mnemonic, Color.paint_false]

lemma lineText?_ok {line : Line} {text : String} (h : program.lineText? line = some text) :
    isOneLine text ∧ text ≠ "    .data" := by
  cases line with
  | label label =>
    obtain rfl := Option.some.inj h
    refine ⟨by simp [isOneLine_label]; rfl, fun he => ?_⟩
    have hcolon : ':' ∈ (label.text ++ ":").toList := by simp
    rw [he] at hcolon
    exact absurd hcolon (by decide)
  | instruction instruction =>
    obtain ⟨operation, -, rfl⟩ := Option.map_eq_some_iff.mp h
    refine ⟨by simp [isOneLine_operation operation isOneLine_tempName]; rfl, fun he => ?_⟩
    have hspace := space_mem_operation operation program.tempName
    have htext : (operation.text false program.tempName).toList = ".data".toList := by
      simpa [String.ext_iff] using he
    rw [htext] at hspace
    exact absurd hspace (by decide)

def opening : String := "    .text\n    .globl main\nmain:\n"

def closing : String := "\n    li $v0, 10\n    syscall\n\n    .data\n"

def source (lines : List String) (data : String) : String :=
  opening ++ String.intercalate "\n" lines ++ closing ++ data ++ "\n"

lemma mem_splitOn_intercalate {lines : List String} (h : ∀ line ∈ lines, isOneLine line) {line : List Char}
    (hline : line ∈ (String.intercalate "\n" lines).toList.splitOn '\n') :
    line = [] ∨ ∃ l ∈ lines, line = l.toList := by
  rw [String.toList_intercalate] at hline
  by_cases hlines : lines = []
  · subst hlines
    exact Or.inl (by simpa using hline)
  · rw [show "\n".toList = ['\n'] from rfl, List.splitOn_intercalate '\n' _ (by simpa using hlines)] at hline
    · obtain ⟨l, hl, rfl⟩ := List.mem_map.mp hline
      exact Or.inr ⟨l, hl, rfl⟩
    · intro l hl hc
      obtain ⟨text, htext, rfl⟩ := List.mem_map.mp hl
      exact absurd (isOneLine_iff.mp (h text htext) _ hc) (by decide)

def joined (first rest : String) : String := first ++ "\n" ++ rest

lemma joined_append (first rest text : String) : joined first rest ++ text = joined first (rest ++ text) := by
  simp only [joined, String.append_assoc]

lemma append_joined (text first rest : String) : text ++ joined first rest = joined (text ++ first) rest := by
  simp only [joined, String.append_assoc]

lemma splitOn_joined (first rest : String) :
    List.splitOn '\n' (joined first rest).toList = List.splitOn '\n' first.toList ++ List.splitOn '\n' rest.toList := by
  rw [joined, String.append_assoc, String.toList_append, String.toList_append]
  exact List.splitOn_append_cons_self _ _

lemma splitOn_source (lines : List String) (data : String) :
    List.splitOn '\n' (source lines data).toList = ["    .text", "    .globl main", "main:"].map String.toList ++
      (List.splitOn '\n' (String.intercalate "\n" lines).toList ++
        (["    li $v0, 10", "    syscall", "", "    .data"].map String.toList ++
          (List.splitOn '\n' data.toList ++ [[]]))) := by
  have hopening : opening = joined "    .text" (joined "    .globl main" (joined "main:" "")) := rfl
  have hclosing : closing =
      joined "" (joined "    li $v0, 10" (joined "    syscall" (joined "" (joined "    .data" "")))) := rfl
  have hend : ∀ text, text ++ data ++ "\n" = joined (text ++ data) "" := fun _ => String.append_empty.symm
  have hone : ∀ text : String, isOneLine text → List.splitOn '\n' text.toList = [text.toList] := fun text ht =>
    List.splitOn_eq_singleton fun hc => absurd (isOneLine_iff.mp ht _ hc) (by decide)
  rw [source, hopening, hclosing, hend]
  simp only [joined_append, append_joined, String.append_empty, String.empty_append, splitOn_joined]
  rw [hone "    .text" rfl, hone "    .globl main" rfl, hone "main:" rfl, hone "    li $v0, 10" rfl,
    hone "    syscall" rfl, hone "" rfl, hone "    .data" rfl]
  simp only [List.map_cons, List.map_nil, List.append_assoc, List.cons_append, List.nil_append, String.toList_empty]

lemma dataLines_source {lines : List String} {data : String}
    (h : ∀ line ∈ lines, isOneLine line ∧ line ≠ "    .data") :
    dataLines (source lines data) = data.toList.splitOn '\n' ++ [[]] := by
  have hother : ∀ {text : String}, text ≠ "    .data" → decide (text.toList ≠ "    .data".toList) = true := fun ht =>
    decide_eq_true fun he => ht (String.toList_inj.mp he)
  have hcode : ∀ line ∈ (String.intercalate "\n" lines).toList.splitOn '\n',
      decide (line ≠ "    .data".toList) = true := fun line hline => by
    rcases mem_splitOn_intercalate (fun l hl => (h l hl).1) hline with rfl | ⟨l, hl, rfl⟩
    · rfl
    · exact hother (h l hl).2
  have hhead : ∀ line ∈ ["    .text", "    .globl main", "main:"].map String.toList,
      decide (line ≠ "    .data".toList) = true := List.forall_mem_map.mpr fun text ht => hother (by
    rintro rfl
    exact absurd ht (by decide))
  have hfoot : ∀ line ∈ ["    li $v0, 10", "    syscall", ""].map String.toList,
      decide (line ≠ "    .data".toList) = true := List.forall_mem_map.mpr fun text ht => hother (by
    rintro rfl
    exact absurd ht (by decide))
  have hdata : ∀ rest : List (List Char), ["    li $v0, 10", "    syscall", "", "    .data"].map String.toList ++ rest =
      ["    li $v0, 10", "    syscall", ""].map String.toList ++ ("    .data".toList :: rest) := fun _ => rfl
  unfold dataLines
  rewrite [splitOn_source, List.dropWhile_append_of_pos hhead, List.dropWhile_append_of_pos hcode, hdata,
    List.dropWhile_append_of_pos hfoot]
  rewrite [List.dropWhile_cons_of_neg (by simp)]
  exact List.tail_cons

def kept (text : String) : String := String.ofList (text.toList.filter isKept)

lemma filter_literalChar (c : Char) :
    (literalChar c).toList.filter isPlain = if isKept c then (literalChar c).toList else [] := by
  split
  · exact filter_isPlain (all_literalChar (fun _ hc => hc) (isShown_of_isKept ‹_›))
  · rename_i h
    simp only [isKept, Bool.or_eq_true, decide_eq_true_eq, not_or, Bool.not_eq_true] at h
    obtain ⟨⟨hline, htab⟩, hshown⟩ := h
    have hquote : c ≠ '"' := by rintro rfl; exact absurd hshown (by decide)
    have hslash : c ≠ '\\' := by rintro rfl; exact absurd hshown (by decide)
    simp [literalChar, hline, htab, hquote, hslash, isPlain, hshown]

lemma filter_literal (text : String) : (literal text).toList.filter isPlain = (literal (kept text)).toList := by
  have hchars : ∀ chars : List Char, (chars.flatMap fun c => (literalChar c).toList).filter isPlain =
      (chars.filter isKept).flatMap fun c => (literalChar c).toList := fun chars => by
    induction chars with
    | nil => rfl
    | cons c rest ih =>
      rw [List.flatMap_cons, List.filter_append, filter_literalChar, ih, List.filter_cons]
      split <;> simp
  have hquote : isPlain '"' = true := by decide
  simp [literal, kept, List.flatMap_map, hchars, hquote]

lemma filter_literalLine (entry : Label × String) :
    (literalLine entry).toList.filter isPlain = (literalLine (entry.1, kept entry.2)).toList := by
  have hcolon : isOneLine ": .asciiz " := rfl
  simp only [literalLine, String.toList_append, List.filter_append, filter_literal, filter_isPlain (isOneLine_label _),
    filter_isPlain hcolon]

lemma filter_intercalate (lines : List (List Char)) :
    (['\n'].intercalate lines).filter isPlain = ['\n'].intercalate (lines.map (List.filter isPlain)) := by
  induction lines with
  | nil => rfl
  | cons first rest ih =>
    cases rest with
    | nil => simp
    | cons second rest =>
      have hline : isPlain '\n' = true := by decide
      rw [List.intercalate_cons_cons, List.filter_append, List.filter_append, ih, List.filter_cons_of_pos hline,
        List.filter_nil, List.map_cons, List.map_cons, List.map_cons, List.intercalate_cons_cons]

lemma filter_literalLines (entries : List (Label × String)) :
    (String.intercalate "\n" (entries.map literalLine)).toList.filter isPlain =
      (String.intercalate "\n" ((entries.map fun entry => (entry.1, kept entry.2)).map literalLine)).toList := by
  rw [String.toList_intercalate, String.toList_intercalate]
  refine (filter_intercalate _).trans (congrArg _ ?_)
  simp only [List.map_map]
  exact List.map_congr_left fun entry _ => filter_literalLine entry

lemma directives_literalLines {entries : List (Label × String)}
    (h : ∀ entry ∈ entries, ∀ c ∈ entry.2.toList, isKept c) :
    ((String.intercalate "\n" (entries.map literalLine)).toList.splitOn '\n').filterMap directive? =
      entries.map fun entry => (entry.1.text, entry.2) := by
  by_cases hempty : entries = []
  · subst hempty
    rfl
  have hone : ∀ line ∈ (entries.map literalLine).map String.toList, '\n' ∉ line :=
    List.forall_mem_map.mpr (List.forall_mem_map.mpr fun entry he hc =>
      absurd (isOneLine_iff.mp (all_literalLine (fun _ hc => hc) fun c hc => isShown_of_isKept (h entry he c hc)) _ hc)
        (by decide))
  have hsplit : (String.intercalate "\n" (entries.map literalLine)).toList.splitOn '\n' =
      (entries.map literalLine).map String.toList := by
    rw [String.toList_intercalate]
    exact List.splitOn_intercalate '\n' hone (by simpa using hempty)
  rw [hsplit, List.map_map, List.filterMap_map, ← List.filterMap_eq_map]
  refine List.filterMap_congr fun entry _ => ?_
  simp only [Function.comp_apply, directive?_literalLine]

lemma plain_source {lines : List String} (h : ∀ line ∈ lines, isOneLine line) {entries : List (Label × String)}
    (hentries : ∀ entry ∈ entries, ∀ c ∈ entry.2.toList, isEscape c = false) :
    plain (source lines (String.intercalate "\n" (entries.map literalLine))) =
      source lines (String.intercalate "\n" ((entries.map fun entry => (entry.1, kept entry.2)).map literalLine)) := by
  have hfix : ∀ {text : String}, text.toList.all isPlain → text.toList.filter isPlain = text.toList := fun ht =>
    List.filter_eq_self.mpr (List.all_eq_true.mp ht)
  have hfree : ∀ {text : String}, text.toList.all isPlain → text.toList.all (!isEscape ·) := fun ht =>
    List.all_eq_true.mpr fun c hc => by simp [not_isEscape_of_isPlain (List.all_eq_true.mp ht c hc)]
  have hopening : opening.toList.all isPlain := rfl
  have hclosing : closing.toList.all isPlain := rfl
  have hend : "\n".toList.all isPlain := rfl
  have hcode : (String.intercalate "\n" lines).toList.all isPlain := String.all_intercalate hend fun line hl =>
    List.all_eq_true.mpr fun c hc => by simp [isPlain, isOneLine_iff.mp (h line hl) c hc]
  have hdata : (String.intercalate "\n" (entries.map literalLine)).toList.all (!isEscape ·) := by
    refine String.all_intercalate (hfree hend) (List.forall_mem_map.mpr fun entry he => ?_)
    exact all_literalLine (fun c hc => by simp [not_isEscape_of_isPlain (c := c) (by simp [isPlain, hc])])
      fun c hc _ _ => by simp [hentries entry he c hc]
  have hsource : (source lines (String.intercalate "\n" (entries.map literalLine))).toList.all (!isEscape ·) := by
    simp only [source, String.toList_append, List.all_append, hfree hopening, hfree hclosing, hfree hend, hfree hcode,
      hdata, Bool.and_self]
  apply String.toList_inj.mp
  rw [plain, String.toList_ofList, plainFrom_shown fun c hc => by simpa using List.all_eq_true.mp hsource c hc]
  simp only [source, String.toList_append, List.filter_append, hfix hopening, hfix hclosing, hfix hend, hfix hcode,
    filter_literalLines]

lemma directives_source {lines : List String} (h : ∀ line ∈ lines, isOneLine line ∧ line ≠ "    .data")
    {entries : List (Label × String)} (hentries : ∀ entry ∈ entries, ∀ c ∈ entry.2.toList, isEscape c = false) :
    directives (plain (source lines (String.intercalate "\n" (entries.map literalLine)))) =
      entries.map fun entry => (entry.1.text, kept entry.2) := by
  have hkept : ∀ entry ∈ entries.map fun entry => (entry.1, kept entry.2), ∀ c ∈ entry.2.toList, isKept c :=
    List.forall_mem_map.mpr fun entry _ c hc => by
      rw [kept, String.toList_ofList] at hc
      exact (List.mem_filter.mp hc).2
  rw [plain_source (fun line hl => (h line hl).1) hentries, directives, dataLines_source h, List.filterMap_append,
    directives_literalLines hkept, List.map_map]
  exact List.append_nil _

lemma isKept_directives {text : String} (h : ∀ c ∈ text.toList, isShown c ∨ c = '\n') {entry : String × String}
    (hentry : entry ∈ directives text) : ∀ c ∈ entry.2.toList, isKept c := by
  obtain ⟨line, hline, hdirective⟩ := List.mem_filterMap.mp hentry
  have hmem : line ∈ text.toList.splitOn '\n' := (List.dropWhile_sublist _).subset (List.mem_of_mem_tail hline)
  have hchars : ∀ c ∈ line, c ∈ text.toList := fun c hc => by
    have hsplit : ['\n'].intercalate (text.toList.splitOn '\n') = text.toList := List.intercalate_splitOn '\n'
    exact hsplit ▸ List.mem_intercalate_of_mem hmem hc
  unfold directive? at hdirective
  split at hdirective
  · rename_i rest hrest
    obtain ⟨chars, hunquote, rfl⟩ := Option.map_eq_some_iff.mp hdirective
    intro c hc
    rw [String.toList_ofList] at hc
    rcases mem_unquote hunquote hc with rfl | rfl | hc
    · rfl
    · rfl
    · have hdrop : c ∈ line.dropWhile (· ≠ ':') := by
        rw [hrest]
        simp [hc]
      rcases h c (hchars c ((List.dropWhile_sublist _).subset hdrop)) with hshown | rfl
      · simp [isKept, hshown]
      · rfl
  · cases hdirective

lemma isSome_resolved? (operation : Operation) : (program.resolved? operation).isSome ↔
    ∀ destination source immediate, operation = .addImmediate destination source immediate →
      (program.immediate? immediate).isSome := by
  cases operation <;> simp [resolved?]

lemma isSome_listing? : program.listing?.isSome ↔ ∀ instruction, .instruction instruction ∈ program.lines →
    ∀ destination source immediate, instruction.operation = .addImmediate destination source immediate →
      (program.immediate? immediate).isSome := by
  simp only [listing?, Option.isSome_map, List.isSome_mapM, ← isSome_resolved?]
  refine ⟨fun h instruction hm => ?_, fun h line hm => ?_⟩
  · simpa [lineText?] using h (.instruction instruction) hm
  · cases line with
    | label label => rfl
    | instruction instruction => simpa [lineText?] using h instruction hm

lemma listing?_eq : program.listing? = (program.lines.mapM program.lineText?).map fun lines =>
    plain (source lines (String.intercalate "\n" (program.strings.map literalLine))) := rfl

lemma kept_eq_self {text : String} (h : ∀ c ∈ text.toList, isKept c) : kept text = text := by
  rw [kept, List.filter_eq_self.mpr h, String.ofList_toList]

lemma not_isEscape_of_isKept {c : Char} (h : isKept c) : isEscape c = false := by
  rcases eq_or_ne c '\t' with rfl | htab
  · rfl
  · refine not_isEscape_of_isPlain ?_
    simp [isKept, htab] at h
    simpa [isPlain, or_comm] using h

lemma directives_of_listing? {text : String} (h : program.listing? = some text)
    (hentries : ∀ entry ∈ program.strings, ∀ c ∈ entry.2.toList, isEscape c = false) :
    directives text = program.strings.map fun entry => (entry.1.text, kept entry.2) := by
  rw [listing?_eq] at h
  obtain ⟨lines, hlines, rfl⟩ := Option.map_eq_some_iff.mp h
  refine directives_source (fun line hline => ?_) hentries
  obtain ⟨_, -, hl⟩ := (List.mapM_eq_some.mp hlines).exists_left hline
  exact lineText?_ok hl

lemma directives_of_isKept {text : String} (h : program.listing? = some text)
    (hentries : ∀ entry ∈ program.strings, ∀ c ∈ entry.2.toList, isKept c) :
    directives text = program.strings.map fun entry => (entry.1.text, entry.2) := by
  rw [directives_of_listing? h fun entry he c hc => not_isEscape_of_isKept (hentries entry he c hc)]
  exact List.map_congr_left fun entry he => by rw [kept_eq_self (hentries entry he)]

lemma text_injective : Function.Injective Label.text := fun a b h => by
  have hrepr : a.number.repr = b.number.repr := by simpa [Label.text, String.ext_iff] using h
  exact congrArg Label.mk (Nat.repr_inj.mp hrepr)

/-- Each program has a listing if the sizes of its frames are machine words. The strings of the listing are the literals
of the program, without their control characters, if there is no escape in them. So they are the literals themselves if
and only if these have no control characters but line feeds and tabs, and programs with such literals and the same
listing have the same literals. -/
theorem directives_listing (program : Program) :
    (program.listing?.isSome ↔ ∀ instruction, .instruction instruction ∈ program.lines →
      ∀ destination source immediate, instruction.operation = .addImmediate destination source immediate →
        (program.immediate? immediate).isSome) ∧
    ∀ text, program.listing? = some text →
      ((∀ entry ∈ program.strings, ∀ c ∈ entry.2.toList, isEscape c = false) →
        directives text = program.strings.map fun entry => (entry.1.text, kept entry.2)) ∧
      (directives text = program.strings.map (fun entry => (entry.1.text, entry.2)) ↔
        ∀ entry ∈ program.strings, ∀ c ∈ entry.2.toList, isKept c) ∧
      ∀ other : Program, other.listing? = some text → (∀ entry ∈ program.strings, ∀ c ∈ entry.2.toList, isKept c) →
        (∀ entry ∈ other.strings, ∀ c ∈ entry.2.toList, isKept c) → other.strings = program.strings := by
  refine ⟨isSome_listing?, fun text htext => ⟨directives_of_listing? htext, ⟨fun hread entry hentry => ?_,
    directives_of_isKept htext⟩, fun other hother hkept hkept' => ?_⟩⟩
  · have hplain : ∀ c ∈ text.toList, isShown c ∨ c = '\n' := fun c hc => by
      rw [listing?_eq] at htext
      obtain ⟨_, -, rfl⟩ := Option.map_eq_some_iff.mp htext
      rw [plain, String.toList_ofList] at hc
      exact mem_plainFrom hc
    exact isKept_directives hplain (hread ▸ List.mem_map_of_mem hentry)
  · have hsame := (directives_of_isKept hother hkept').symm.trans (directives_of_isKept htext hkept)
    refine List.map_injective_iff.mpr (fun a b hab => ?_) hsame
    obtain ⟨hlabel, hstring⟩ := Prod.mk.inj hab
    exact Prod.ext (text_injective hlabel) hstring

theorem directives_quoted : ∃ machine text, (analyze (.string {} "\"é\\\n\t\"")).2.generate = .ok machine ∧
    machine.listing? = some text ∧ directives text = [("L0", "\"é\\\n\t\"")] := by
  have hrun : ((analyze (.string {} "\"é\\\n\t\"")).2.generate.toOption.map fun machine =>
      (machine.strings, machine.listing?.isSome)) = some ([(⟨0⟩, "\"é\\\n\t\"")], true) := by decide +kernel
  obtain ⟨machine, hgenerate, hpair⟩ := Except.exists_ok hrun
  obtain ⟨hstrings, hsome⟩ := Prod.mk.inj hpair
  obtain ⟨text, htext⟩ := Option.isSome_iff_exists.mp hsome
  have hkept : ∀ entry ∈ machine.strings, ∀ c ∈ entry.2.toList, isKept c := by
    have hall : "\"é\\\n\t\"".toList.all isKept := rfl
    rw [hstrings]
    exact List.forall_mem_singleton.mpr (List.all_eq_true.mp hall)
  refine ⟨machine, text, hgenerate, htext, ?_⟩
  rw [((directives_listing machine).2 text htext).2.1.mpr hkept, hstrings]
  rfl

/-- A carriage return is missing in the listing, which is that of another literal. -/
theorem directives_carriageReturn : ∃ machine machine' text, (analyze (.string {} "a\rb")).2.generate = .ok machine ∧
    (analyze (.string {} "ab")).2.generate = .ok machine' ∧ machine.strings = [(⟨0⟩, "a\rb")] ∧
    machine'.strings = [(⟨0⟩, "ab")] ∧ machine.listing? = some text ∧ machine'.listing? = some text ∧
    directives text = [("L0", "ab")] := by
  have hrun : ((analyze (.string {} "a\rb")).2.generate.toOption.map fun machine =>
      (machine.strings, machine.listing?)) = some ([(⟨0⟩, "a\rb")], some (source [] "L0: .asciiz \"ab\"")) := by
    decide +kernel
  have hrun' : ((analyze (.string {} "ab")).2.generate.toOption.map fun machine =>
      (machine.strings, machine.listing?)) = some ([(⟨0⟩, "ab")], some (source [] "L0: .asciiz \"ab\"")) := by
    decide +kernel
  obtain ⟨machine, hgenerate, hpair⟩ := Except.exists_ok hrun
  obtain ⟨machine', hgenerate', hpair'⟩ := Except.exists_ok hrun'
  obtain ⟨hstrings, hlisting⟩ := Prod.mk.inj hpair
  obtain ⟨hstrings', hlisting'⟩ := Prod.mk.inj hpair'
  exact ⟨machine, machine', _, hgenerate, hgenerate', hstrings, hstrings', hlisting, hlisting', by decide +kernel⟩

end Program

end Machine

end TigerMips
