import Mathlib.Tactic
import TigerMips.Proofs.Arena
import TigerMips.Proofs.Ty
import TigerMips.Runtime
import TigerMips.Tac.Program

/-! Code that instructions can be selected for: operations have places for their results and
enough arguments, and jumps lead to labels. -/

namespace TigerMips

def Frame.Grows (f g : Frame) : Prop := ∃ more, g = { f with locals := f.locals ++ more }

instance : Std.Refl Frame.Grows := ⟨fun f => ⟨[], by simp⟩⟩

instance : IsTrans Frame Frame.Grows where
  trans := by
    rintro f _ _ ⟨more, rfl⟩ ⟨rest, rfl⟩
    exact ⟨more ++ rest, by simp⟩

structure Frame.Alike (f g : Frame) : Prop where
  entry : g.entry = f.entry
  params : g.params = f.params
  display : g.display = f.display

lemma Frame.Alike.refl (f : Frame) : Frame.Alike f f := ⟨rfl, rfl, rfl⟩

lemma Frame.Alike.trans {f g h : Frame} (hfg : Frame.Alike f g) (hgh : Frame.Alike g h) : Frame.Alike f h :=
  ⟨hgh.entry.trans hfg.entry, hgh.params.trans hfg.params, hgh.display.trans hfg.display⟩

lemma Frame.Grows.alike {f g : Frame} (h : Frame.Grows f g) : Frame.Alike f g := by
  obtain ⟨_, rfl⟩ := h
  exact ⟨rfl, rfl, rfl⟩

def Runtime.hasResult (function : Runtime) : Bool := function.signature.result.isPlain

@[simp] lemma Runtime.hasResult_malloc : Runtime.malloc.hasResult = true := rfl

@[simp] lemma Runtime.hasResult_strcmp : Runtime.strcmp.hasResult = true := rfl

lemma Runtime.ofName?_name (function : Runtime) : Runtime.ofName? function.name = some function := by
  cases function <;> rfl

def Access.isPlace : Access → Bool
  | const _ => false
  | temp _ | memory _ _ => true

@[simp] lemma Access.isPlace_temp (place : Temp) : (temp place).isPlace = true := rfl

@[simp] lemma Access.isPlace_memory (base offset : Access) : (memory base offset).isPlace = true := rfl

def Tac.Selectable (frames : Arena .frame Frame) : Tac → Prop
  | move destination _ | binary _ destination _ _ => destination.isPlace
  | negate destination operand => destination.isPlace ∧ ∀ label, operand ≠ .const (.string label)
  | call destination target arguments =>
    (∀ place ∈ destination, place.isPlace) ∧
      ∃ id frame, frames.get? id = some frame ∧ frame.entry = some target ∧ frame.params.length = arguments.length
  | callRuntime destination name arguments =>
    (∀ place ∈ destination, place.isPlace) ∧
      ∃ function, Runtime.ofName? name = some function ∧ function.signature.params.length ≤ arguments.length
  | ret | goto _ | branch _ _ _ _ => True

lemma Tac.Selectable.of_entries {frames frames' : Arena .frame Frame} (hf : frames.Grows Frame.Alike frames')
    {tac : Tac} (h : tac.Selectable frames) : tac.Selectable frames' := by
  cases tac with
  | call destination target arguments =>
    obtain ⟨hd, id, frame, hg, he, hlength⟩ := h
    obtain ⟨frame', hg', halike⟩ := hf id frame hg
    exact ⟨hd, id, frame', hg', halike.entry.trans he, by rw [halike.params, hlength]⟩
  | _ => exact h

namespace Code

@[simp] lemma labels_nil : labels [] = [] := rfl

@[simp] lemma labels_append (first second : List Code) : labels (first ++ second) = labels first ++ labels second :=
  List.filterMap_append

@[simp] lemma labels_label (place : Label) (rest : List Code) :
    labels (label place :: rest) = place :: labels rest := rfl

@[simp] lemma labels_op (frame : FrameId) (tac : Tac) (rest : List Code) :
    labels (op frame tac :: rest) = labels rest :=
  rfl

@[simp] lemma labels_labeled (place : Label) (frame : FrameId) (tac : Tac) (rest : List Code) :
    labels (labeled place frame tac :: rest) = place :: labels rest := rfl

def Selectable (known : Label → Prop) (frames : Arena .frame Frame) : Code → Prop
  | label _ => True
  | op frame tac | labeled _ frame tac =>
    frame.position < frames.size ∧ tac.Selectable frames ∧ ∀ target ∈ tac.target?, known target

def Supported (known : Label → Prop) (frames : Arena .frame Frame) (codes : List Code) : Prop :=
  ∀ code ∈ codes, code.Selectable (fun target => target ∈ labels codes ∨ known target) frames

variable {known known' : Label → Prop} {frames frames' : Arena .frame Frame} {code : Code} {codes rest : List Code}

lemma Selectable.of_entries (h : code.Selectable known frames) (hf : frames.Grows Frame.Alike frames') :
    code.Selectable known frames' := by
  cases code with
  | label place => trivial
  | op frame tac | labeled place frame tac => exact ⟨h.1.trans_le hf.size_le, h.2.1.of_entries hf, h.2.2⟩

lemma Selectable.mono (h : code.Selectable known frames) (hf : frames.Grows Frame.Grows frames')
    (hk : ∀ target, known target → known' target) : code.Selectable known' frames' := by
  have hentries := h.of_entries (hf.mono fun _ _ => Frame.Grows.alike)
  cases code with
  | label place => trivial
  | op frame tac | labeled place frame tac =>
    exact ⟨hentries.1, hentries.2.1, fun target ht => hk target (hentries.2.2 target ht)⟩

end Code

structure Tac.Program.Selectable (program : Tac.Program) : Prop where
  codes : Code.Supported (fun _ => False) program.frames program.codes
  mainFrame : program.mainFrame.position < program.frames.size
  returns : ∀ id f, program.frames.get? id = some f → f.returns = []

end TigerMips
