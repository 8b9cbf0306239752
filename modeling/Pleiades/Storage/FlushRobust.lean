import Pleiades.Storage.FlushAgreement

/-!
# Flush over any directory

When no file that cannot be resolved or analysed keeps `Flush` from the other files and
from its later steps.
-/
namespace Pleiades.Storage

open Lib Gguf

variable (lib : Library)

variable {lib} {env : Env} {m : StorageManager} {f g : FileId} {p p' p'' : Progress} {item : Item}

theorem dots_infix_pgguf {stem : List Char} (free : ¬ ['.', '.'] <:+: stem ++ ['.']) :
    ¬ ['.', '.'] <:+: stem ++ ".pgguf".toList := by
  intro dots
  obtain ⟨front, back, same⟩ := dots
  have extension : ∀ cs : List Char, "pgguf".toList = cs → '.' ∉ cs := by
    rintro cs rfl
    decide
  rw [List.append_assoc, List.append_eq_append_iff] at same
  rcases same with ⟨inner, rfl, rest⟩ | ⟨inner, rfl, rest⟩
  · apply free
    cases inner with
    | nil =>
        have tail : '.' :: back = "pgguf".toList := (List.cons.inj rest).2
        exact absurd List.mem_cons_self (extension _ tail.symm)
    | cons c inner =>
        have onward : '.' :: back = inner ++ ".pgguf".toList := (List.cons.inj rest).2
        have dot : '.' = c := (List.cons.inj rest).1
        subst dot
        cases inner with
        | nil => exact ⟨front, [], by simp⟩
        | cons c inner =>
            have dot : '.' = c := (List.cons.inj onward).1
            subst dot
            exact ⟨front, inner ++ ['.'], by simp⟩
  · cases inner with
    | nil =>
        have tail : "pgguf".toList = '.' :: back := (List.cons.inj rest).2
        exact absurd List.mem_cons_self (extension _ tail)
    | cons c inner =>
        have tail : "pgguf".toList = inner ++ ('.' :: '.' :: back) := (List.cons.inj rest).2
        exact absurd (List.mem_append_right inner List.mem_cons_self) (extension _ tail)

/-- A name that resolves has a `.pgguf` name that does. -/
theorem resolvable_pggufName (resolves : resolvable f = true) : resolvable (pggufName f) = true := by
  simp only [resolvable, decide_eq_true_iff] at resolves
  obtain ⟨named, slash, backslash, dots, shown⟩ := resolves
  have shown : isHidden f = false := Bool.eq_false_of_not_eq_true shown
  have named' : f ≠ "" := fun empty => named (String.toList_eq_nil_iff.mpr empty)
  obtain ⟨stem, output, dots, of_stem⟩ : ∃ stem, (pggufName f).toList = stem ++ ".pgguf".toList ∧
      ¬ ['.', '.'] <:+: stem ++ ['.'] ∧ ∀ c ∈ stem, c ∈ f.toList := by
    rcases name_cases f with ⟨stem, extension, present, free, rfl⟩ | plain
    · rw [String.toList_ofList] at dots
      refine ⟨stem, by rw [pggufName_dot present free, String.toList_ofList], fun inner => dots ?_, ?_⟩
      · have whole : stem ++ '.' :: extension = (stem ++ ['.']) ++ extension := by simp
        rw [whole]
        exact inner.trans (List.prefix_append ..).isInfix
      · intro c member
        rw [String.toList_ofList]
        exact List.mem_append_left _ member
    · refine ⟨f.toList, by rw [pggufName_plain plain, String.toList_ofList], fun inner => ?_, fun c member => member⟩
      have undotted : '.' ∉ f.toList := by
        intro dot
        obtain ⟨back, front, turned, last⟩ := List.eq_append_cons_of_mem (List.mem_reverse.mpr dot)
        have whole : f.toList = front.reverse ++ '.' :: back.reverse := by
          rw [← List.reverse_reverse f.toList, turned]
          simp
        have nothing := plain _ _ whole (fun dot => last (List.mem_reverse.mp dot))
        rw [isHidden, whole, nothing] at shown
        cases shown
      have count := inner.sublist.count_le '.'
      rw [List.count_append, List.count_eq_zero.mpr undotted] at count
      exact absurd count (by decide)
  have hidden := ne_true_of_eq_false (isHidden_pggufName named' shown)
  simp only [resolvable, decide_eq_true_iff]
  refine ⟨?_, ?_, ?_, ?_, hidden⟩
  · rw [output]
    exact List.append_ne_nil_of_right_ne_nil _ (by decide)
  · rw [output, List.mem_append, not_or]
    exact ⟨fun inside => slash (of_stem _ inside), by decide⟩
  · rw [output, List.mem_append, not_or]
    exact ⟨fun inside => backslash (of_stem _ inside), by decide⟩
  · rw [output]
    exact dots_infix_pgguf dots

/-- What becomes of the names of a scan. -/
structure Onward (items : List Item) (p p' : Progress) : Prop where
  seen : ∀ f ∈ p.seen, f ∈ p'.seen
  visited : ∀ item ∈ items, (visibleSize p.manager.disk item.name).isSome → item.name ∈ p'.seen
  entries : (∀ f ∈ p.seen, (p.manager.files.lookup f).isSome) → ∀ f ∈ p'.seen, (p'.manager.files.lookup f).isSome
  visible : ∀ f, (visibleSize p.manager.disk f).isSome → f ∈ p'.seen ∨ (visibleSize p'.manager.disk f).isSome

theorem Onward.nil (p : Progress) : Onward [] p p where
  seen _ member := member
  visited := by nofun
  entries listed := listed
  visible _ there := .inr there

theorem Onward.cons {rest : List Item} (first : Onward [item] p p') (later : Onward rest p' p'') :
    Onward (item :: rest) p p'' where
  seen f member := later.seen f (first.seen f member)
  visited := by
    intro other member visible
    rcases List.mem_cons.mp member with rfl | member
    · exact later.seen _ (first.visited other List.mem_cons_self visible)
    · rcases first.visible other.name visible with seen | visible
      · exact later.seen _ seen
      · exact later.visited other member visible
  entries listed := later.entries (first.entries listed)
  visible := by
    intro f visible
    rcases first.visible f visible with seen | visible
    · exact .inl (later.seen f seen)
    · exact later.visible f visible

/-- The names of a directory keep resolving. -/
theorem Resolves.visit (resolves : Resolves p.manager.disk) (visited : visit lib p item = .ok p') :
    Resolves p'.manager.disk := by
  rcases visit_cases visited with ⟨rfl, -⟩ | ⟨bytes, file, survives⟩
  · exact resolves
  · have resolves' := file.resolves
    rw [visit_file file survives] at visited
    cases visited
    intro f visible model
    by_cases same : f = item.name
    · exact same ▸ resolves' (same ▸ model)
    · by_cases output : isModelFile item.name = true ∧ f = pggufName item.name
      · rw [output.2]
        exact resolvable_pggufName (resolves' output.1)
      · have kept : (p.manager.examine lib item.env item.name).1 f = p.manager.disk f :=
          examine_only same fun model equal => output ⟨model, equal⟩
        rw [visibleSize_isSome] at visible
        obtain ⟨shown', bytes', stored'⟩ := visible
        exact resolves f (visibleSize_isSome.mpr ⟨shown', bytes', kept ▸ stored'⟩) model

end Pleiades.Storage
