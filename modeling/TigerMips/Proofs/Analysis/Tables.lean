import TigerMips.Proofs.Analysis.Frames
import TigerMips.Proofs.Analysis.Invariant
import TigerMips.Proofs.Analysis.Tracing
import TigerMips.Proofs.Labels

/-! The tables of a program without errors are those of its code: the call graph, the runtime functions
and the strings. -/

namespace TigerMips

def Access.strings : Access → List Label
  | temp _ => []
  | const (.string label) => [label]
  | const _ => []
  | memory base offset => base.strings ++ offset.strings

namespace StringTable

def labels (table : StringTable) : List Label := table.entries.map Prod.fst

def texts (table : StringTable) : List String := table.entries.map Prod.snd

lemma find?_eq_none {table : StringTable} {text : String} : table.find? text = none ↔ text ∉ table.texts := by
  simp only [find?, texts, Option.map_eq_none_iff, List.find?_eq_none, decide_eq_true_eq, List.mem_map,
    not_exists, not_and]

lemma mem_labels_of_find? {table : StringTable} {text : String} {label : Label} (h : table.find? text = some label) :
    label ∈ table.labels := by
  obtain ⟨entry, hfound, rfl⟩ := Option.map_eq_some_iff.mp h
  exact List.mem_map_of_mem (List.mem_of_find?_eq_some hfound)

end StringTable

namespace Analysis

open Analyzer

def NamesStrings (s : Analyzer) (_ : FrameId) (access : Access) : Prop :=
    ∀ label ∈ access.strings, label ∈ s.strings.labels

lemma usage_namesStrings : Usage (fun _ => True) (fun _ => True) NamesStrings where
  later hg hp label hl := (hg.strings.map Prod.fst).subset (hp label hl)
  int _ _ _ := by simp [NamesStrings, Access.int, Access.strings]
  word _ _ := by simp [NamesStrings, Access.word, Access.strings]
  string _ h := by
    rcases internString_eq h with ⟨label, hfound, rfl, rfl⟩ | ⟨-, rfl, rfl⟩
    · simpa [NamesStrings, Access.strings] using StringTable.mem_labels_of_find? hfound
    · simp [NamesStrings, Access.strings, StringTable.labels, StringTable.add]
  memory _ _ hb ho label hl := (List.mem_append.mp hl).elim (hb label) (ho label)
  own _ := by simp [NamesStrings, Access.strings]
  variablePlace _ _ _ := by simp [NamesStrings, Access.strings]
  kept _ _ _ _ _ := trivial
  openScope _ := trivial
  openFunction _ _ := trivial
  putVariable _ _ _ _ _ := trivial
  putFunction _ _ _ _ := trivial

lemma invariant_texts : Invariant fun s => s.strings.texts.Nodup where
  same hn _ _ hs _ := hs ▸ hn
  newLabel hn := hn
  newTemp hn := hn
  internString h hn := by
    rcases internString_eq h with ⟨_, -, -, rfl⟩ | ⟨hfound, -, rfl⟩
    · exact hn
    · have hnew := StringTable.find?_eq_none.mp hfound
      simpa [StringTable.texts, StringTable.add] using hn.concat hnew
  functions _ _ _ hn := hn
  declare _ _ _ hn := hn

end Analysis

/-- The tables of a program say what its code does: which frames call which, which functions of the runtime are called,
and where the strings are. -/
structure Tac.Program.Tabulated (program : Tac.Program) : Prop where
  edges : ∀ caller callee, (caller, callee) ∈ program.callGraph.edges ↔
    ∃ op ∈ Code.ops program.codes, op.1 = caller ∧ ∃ label ∈ op.2.callee?, Frame.EntersAt program.frames callee label
  callees : ∀ op ∈ Code.ops program.codes, ∀ label ∈ op.2.callee?, ∃! callee, Frame.EntersAt program.frames callee label
  runtime : ∀ name, name ∈ program.runtime ↔ ∃ op ∈ Code.ops program.codes, name ∈ op.2.runtime?
  strings : ∀ op ∈ Code.ops program.codes, ∀ access ∈ op.2.accesses, ∀ label ∈ access.strings,
    program.strings.labels.count label = 1
  labels : program.strings.labels.Nodup
  texts : program.strings.texts.Nodup

theorem tabulated_analyze (expression : Expr) (h : (analyze expression).1 = []) : (analyze expression).2.Tabulated := by
  have htraced := Analysis.traced_analyze Analysis.usage_namesStrings trivial (fun _ _ => trivial) h
  have hunique : ∀ {callee other label}, Frame.EntersAt (analyze expression).2.frames callee label →
      Frame.EntersAt (analyze expression).2.frames other label → callee = other := by
    rintro callee other label ⟨f, hf, he⟩ ⟨g, hg, he'⟩
    exact (separate_analyze expression).entries hf hg he he'
  have hlabels : (analyze expression).2.strings.labels.Nodup :=
    List.nodup_iff_count_le_one.mpr fun label => by
      have := placings_analyze h label
      unfold StringTable.labels
      omega
  refine ⟨fun caller callee => ⟨fun hm => ?_, ?_⟩, fun op hm label hl => ?_, fun name =>
    ⟨fun hm => ?_, ?_⟩, ?_, hlabels, Analysis.invariant_texts.analyze List.nodup_nil expression⟩
  · exact (htraced.edges _ hm).resolve_left (by simp [Analyzer.initial])
  · rintro ⟨op, hm, rfl, label, hl, henters⟩
    obtain ⟨target, hedge, htarget⟩ := htraced.calls op hm label hl
    exact hunique htarget henters ▸ hedge
  · obtain ⟨callee, -, henters⟩ := htraced.calls op hm label hl
    exact ⟨callee, henters, fun other ho => hunique ho henters⟩
  · exact (htraced.runtime _ hm).resolve_left (by simp [Analyzer.initial])
  · rintro ⟨op, hm, hn⟩
    exact htraced.names op hm name hn
  · intro op hm access ha label hl
    exact List.count_eq_one_of_mem hlabels (htraced.accesses op hm access ha label hl)

def repeatedTexts : Expr :=
  .letIn {} [.functions [
    .mk { name := "copies" } [({ name := "n" }, { name := "int" })] (some { name := "string" })
      (.ifThenElse {} (.lvalue {} (.var {} { name := "n" }))
        (.call {} { name := "concat" } [.string {} "ab",
          .call {} { name := "copies" } [.operation {} (.strict .sub) {} (.lvalue {} (.var {} { name := "n" }))
            (.int {} 1)]])
        (.string {} "ab")),
    .mk { name := "show" } [({ name := "text" }, { name := "string" })] none
      (.sequence {} [.call {} { name := "print" } [.lvalue {} (.var {} { name := "text" })],
        .call {} { name := "print" } [.string {} "!"]])]]
    [.call {} { name := "show" } [.string {} "!"],
      .call {} { name := "show" } [.call {} { name := "copies" } [.int {} 2]]]

theorem repeatedTexts_tabulated : (analyze repeatedTexts).1 = [] ∧ (analyze repeatedTexts).2.Tabulated := by
  have hclean : (analyze repeatedTexts).1 = [] := List.isEmpty_iff.mp (by decide +kernel)
  exact ⟨hclean, tabulated_analyze repeatedTexts hclean⟩

end TigerMips
