import Cpm80.Proofs.LenientReading
import Cpm80.Proofs.ProgramStarts

/-!
# Looks at the output

What a session shows waits until somebody looks, and a look takes it away. How often one looks makes
no difference to anything else, and the bytes that are seen in all are the same. But each look reads
its bytes as text on their own, so the text is the same only if no look falls into the middle of a
character.
-/
namespace Cpm80.Session

variable {α β : Type} {front : Array UInt8} {s t : Session} {o : Operation}

/-! ## What is found on the way -/

namespace Operation

def isLook : Operation → Bool
  | takeOutput => true
  | _ => false

theorem isLook_iff : o.isLook = true ↔ o = .takeOutput := by
  cases o <;> simp [isLook]

end Operation

/-- The operations less the looks at the output. -/
def withoutLooks (operations : List Operation) : List Operation :=
  operations.filter fun o => !o.isLook

/-- What is found at each of the operations that are chosen, as they come one after another. -/
def gather (chosen : Operation → Bool) (find : Session → Operation → α) (s : Session) :
    List Operation → List α
  | [] => []
  | o :: rest =>
    (if chosen o then [find s o] else []) ++ (s.perform o).gather chosen find rest

/-- The bytes that each look takes away. -/
def looks (s : Session) (operations : List Operation) : List (List UInt8) :=
  s.gather Operation.isLook (fun s _ => s.takeBytes.1) operations

/-- The text that each look is given. -/
def texts (s : Session) (operations : List Operation) : List (List Char) :=
  s.gather Operation.isLook (fun s _ => s.takeOutput.1) operations

/-- The answers to the operations that are no looks. -/
def otherAnswers (s : Session) (operations : List Operation) : List Answer :=
  s.gather (fun o => !o.isLook) answer operations

section Gather

variable (chosen : Operation → Bool) (find : Session → Operation → α)

theorem gather_append (s : Session) (front back : List Operation) :
    s.gather chosen find (front ++ back) =
      s.gather chosen find front ++ (s.after front).gather chosen find back := by
  induction front generalizing s with
  | nil => rfl
  | cons o rest ih =>
    rw [List.cons_append, gather, gather, ih, List.append_assoc]
    rfl

theorem map_gather (g : α → β) (s : Session) (operations : List Operation) :
    (s.gather chosen find operations).map g =
      s.gather chosen (fun s o => g (find s o)) operations := by
  induction operations generalizing s with
  | nil => rfl
  | cons o rest ih =>
    rw [gather, gather, List.map_append, ih]
    split <;> rfl

theorem gather_of_not_chosen {operations : List Operation}
    (h : ∀ o ∈ operations, chosen o = false) (s : Session) :
    s.gather chosen find operations = [] := by
  induction operations generalizing s with
  | nil => rfl
  | cons o rest ih =>
    obtain ⟨hfirst, hrest⟩ := List.forall_mem_cons.mp h
    rw [gather, ih hrest, hfirst]
    rfl

end Gather

/-- The text of a look is what its bytes read as. -/
theorem texts_eq (s : Session) (operations : List Operation) :
    s.texts operations = (s.looks operations).map Utf8.decodeLenient :=
  (map_gather _ (fun s _ => s.takeBytes.1) _ s operations).symm

section NoLook

variable (h : o.isLook = false)
include h

theorem withoutLooks_cons (rest : List Operation) :
    withoutLooks (o :: rest) = o :: withoutLooks rest :=
  List.filter_cons_of_pos (by rw [h]; rfl)

theorem looks_cons (s : Session) (rest : List Operation) :
    s.looks (o :: rest) = (s.perform o).looks rest := by
  rw [looks, gather, h]
  rfl

theorem otherAnswers_cons (s : Session) (rest : List Operation) :
    s.otherAnswers (o :: rest) = s.answer o :: (s.perform o).otherAnswers rest := by
  rw [otherAnswers, gather, h]
  rfl

end NoLook

theorem looks_append_look (s : Session) (operations : List Operation) :
    s.looks (operations ++ [.takeOutput]) = s.looks operations ++ [(s.after operations).unseen] :=
  gather_append _ _ s operations [.takeOutput]

theorem otherAnswers_append_look (s : Session) (operations : List Operation) :
    s.otherAnswers (operations ++ [.takeOutput]) = s.otherAnswers operations :=
  (gather_append _ _ s operations [.takeOutput]).trans (List.append_nil _)

/-- Whoever looks only in the end sees everything then. -/
theorem looks_once (s : Session) (operations : List Operation) :
    s.looks (withoutLooks operations ++ [.takeOutput]) =
      [(s.after (withoutLooks operations)).unseen] := by
  have hnone : ∀ o ∈ withoutLooks operations, o.isLook = false := fun o ho =>
    Bool.not_eq_true' _ |>.mp (List.mem_filter.mp ho).2
  rw [looks_append_look, looks, gather_of_not_chosen _ _ hnone, List.nil_append]

/-! ## Looking or not -/

theorem Unseen.refl (s : Session) : s.Unseen #[] s :=
  ⟨⟨rfl, rfl, rfl, (Console.behind_empty _).symm⟩, rfl, rfl, rfl, rfl, rfl⟩

namespace Unseen

/-- What has not been seen of the other session is what is in front and what has not been seen of
the one. -/
theorem unseen_eq (h : s.Unseen front t) : t.unseen = front.toList ++ s.unseen := by
  obtain ⟨u, rfl⟩ := h.exists_eq
  exact Array.toList_append

/-- A look at the one only has what it sees in front of the other. -/
theorem look (h : s.Unseen front t) :
    (s.perform .takeOutput).Unseen (front ++ s.unseen.toArray) t := by
  obtain ⟨u, rfl⟩ := h.exists_eq
  obtain ⟨⟨p, m, d, c, v⟩, n, i, w, o, mode⟩ := s
  have hconsole : c.behind front = c.takeOutput.2.behind (front ++ c.output.toList.toArray) := by
    simp [Console.behind, Console.takeOutput]
  exact ⟨⟨rfl, rfl, rfl, hconsole⟩, rfl, rfl, rfl, rfl, rfl⟩

/-- One session is looked at on the way and the other is not: what has been seen is in front in the
end, and the other operations have given the same answers. -/
theorem after_withoutLooks (h : s.Unseen front t) (operations : List Operation) :
    (s.after operations).Unseen (front ++ (s.looks operations).flatten.toArray)
        (t.after (withoutLooks operations)) ∧
      t.otherAnswers (withoutLooks operations) = s.otherAnswers operations := by
  induction operations generalizing front s t with
  | nil =>
    have hnothing : front ++ (s.looks []).flatten.toArray = front := Array.append_empty
    rw [hnothing]
    exact ⟨h, rfl⟩
  | cons o rest ih =>
    cases hlook : o.isLook with
    | true =>
      obtain rfl := Operation.isLook_iff.mp hlook
      obtain ⟨hstate, hanswers⟩ := ih h.look
      have hseen : (s.looks (.takeOutput :: rest)).flatten =
          s.unseen ++ ((s.perform .takeOutput).looks rest).flatten := rfl
      rw [hseen, ← List.append_toArray, ← Array.append_assoc]
      exact ⟨hstate, hanswers⟩
    | false =>
      have hother : o ≠ .takeOutput := by
        rintro rfl
        cases hlook
      obtain ⟨hnext, hanswer⟩ := h.perform hother
      obtain ⟨hstate, hanswers⟩ := ih hnext
      rw [withoutLooks_cons hlook, looks_cons hlook, otherAnswers_cons hlook,
        otherAnswers_cons hlook, hanswer, hanswers]
      exact ⟨hstate, rfl⟩

end Unseen

/-- Whoever looks on the way sees in all the bytes that are seen by looking only in the end, gets the
same answers to everything else and leaves the session in the same state. The text is the same
exactly if a reader of all the bytes stops by itself wherever a look has cut them. So it is if they
are ASCII. -/
theorem looks_see_same (s : Session) (operations : List Operation) :
    let often := operations ++ [.takeOutput]
    let once := withoutLooks operations ++ [.takeOutput]
    (s.looks often).flatten = (s.looks once).flatten ∧
      s.otherAnswers often = s.otherAnswers once ∧
      (s.after once).SameButOutput (s.after often) ∧
      ((s.texts often).flatten = (s.texts once).flatten ↔
        ∀ front back, s.looks often = front ++ back →
          Utf8.StopsAt (s.looks once).flatten back.flatten) ∧
      ((∀ b ∈ (s.looks once).flatten, b.toNat < 0x80) →
        (s.texts often).flatten = (s.texts once).flatten) := by
  intro often once
  obtain ⟨hstate, hanswers⟩ := (Unseen.refl s).after_withoutLooks operations
  have honce := looks_once s operations
  have hbytes : (s.looks often).flatten = (s.looks once).flatten := by
    rw [honce, looks_append_look, List.flatten_append, hstate.unseen_eq]
    simp
  have htexts : (s.texts often).flatten = (s.texts once).flatten ↔
      ∀ front back, s.looks often = front ++ back →
        Utf8.StopsAt (s.looks once).flatten back.flatten := by
    have hwhole : (s.texts once).flatten = Utf8.decodeLenient (s.looks often).flatten := by
      rw [hbytes, texts_eq, honce]
      simp
    rw [hwhole, texts_eq, Utf8.flatten_decodeLenient_iff, hbytes]
  refine ⟨hbytes, ?_, ?_, htexts, fun hascii => htexts.mpr fun front back h => ?_⟩
  · rw [otherAnswers_append_look, otherAnswers_append_look, hanswers]
  · rw [after_append, after_append]
    exact hstate.perform_takeOutput.1.sameButOutput (Unseen.refl _)
  · rw [← hbytes, h, List.flatten_append] at hascii ⊢
    exact .of_ascii fun b hb => hascii b (List.mem_append_left _ hb)

/-- A new session with a program in memory that writes the two bytes of a character one after
another. -/
def withWriter : Session :=
  ((ofDrives [.memory .empty]).load 0x0100
    [0x3E, 0xC3, 0xD3, 0x00, 0x3E, 0xA9, 0xD3, 0x00, 0x76]).1

/-- A look between the two bytes spoils the character. -/
theorem exists_texts_ne :
    let often : List Operation := [.run (some 0x0100) 17, .takeOutput, .run none 100, .takeOutput]
    let once : List Operation := [.run (some 0x0100) 17, .run none 100, .takeOutput]
    withoutLooks often = withoutLooks once ∧
    withWriter.looks often = [[0x41, 0x3E, 0xC3], [0xA9]] ∧
    withWriter.looks once = [[0x41, 0x3E, 0xC3, 0xA9]] ∧
    withWriter.texts often = [['A', '>', '\uFFFD'], ['\uFFFD']] ∧
    withWriter.texts once = [['A', '>', 'é']] := by
  intro often once
  refine ⟨rfl, ?_, ?_, ?_, ?_⟩
  · decide +kernel
  · decide +kernel
  · decide +kernel
  · decide +kernel

end Cpm80.Session
