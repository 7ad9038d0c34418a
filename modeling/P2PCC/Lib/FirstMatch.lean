import Mathlib.Data.List.Basic
import Mathlib.Data.List.Nodup

namespace P2PCC.Lib.FirstMatch

variable {α : Type}

/-- Update the first element that meets a test, as code does that walks a
linked list to a node and writes through the pointer. -/
def modifyFirst (p : α → Bool) (f : α → α) : List α → List α
  | [] => []
  | a :: l => if p a then f a :: l else a :: modifyFirst p f l

variable {p q : α → Bool} {f g : α → α}

theorem modifyFirst_split {l : List α} {a : α} (h : l.find? p = some a) :
    ∃ l₁ l₂, l = l₁ ++ a :: l₂ ∧ (∀ b ∈ l₁, p b = false) ∧ p a = true ∧
      ∀ f, modifyFirst p f l = l₁ ++ f a :: l₂ := by
  induction l with
  | nil => simp at h
  | cons b l ih =>
    cases hb : p b with
    | true =>
      rw [List.find?_cons_of_pos hb, Option.some.injEq] at h
      subst h
      exact ⟨[], l, rfl, by simp, hb, fun f => by simp [modifyFirst, hb]⟩
    | false =>
      rw [List.find?_cons_of_neg (by simp [hb])] at h
      obtain ⟨l₁, l₂, hl, hp, ha, hm⟩ := ih h
      refine ⟨b :: l₁, l₂, by simp [hl], ?_, ha, fun f => by simp [modifyFirst, hb, hm]⟩
      intro c hc
      cases List.mem_cons.mp hc with
      | inl he => rw [he]; exact hb
      | inr hm => exact hp c hm

theorem find?_of_prefix {l₁ l₂ : List α} {a : α} (hl : ∀ b ∈ l₁, p b = false) (ha : p a = true) :
    (l₁ ++ a :: l₂).find? p = some a := by
  rw [List.find?_append, List.find?_eq_none.mpr (by simpa using hl)]
  simp [ha]

theorem modifyFirst_of_prefix {l₁ l₂ : List α} {a : α} (hl : ∀ b ∈ l₁, p b = false)
    (ha : p a = true) : modifyFirst p f (l₁ ++ a :: l₂) = l₁ ++ f a :: l₂ := by
  induction l₁ with
  | nil => simp [modifyFirst, ha]
  | cons b l₁ ih =>
    rw [List.cons_append, modifyFirst, hl b List.mem_cons_self, if_neg Bool.false_ne_true,
      ih fun c hc => hl c (List.mem_cons_of_mem b hc), List.cons_append]

theorem modifyFirst_none {l : List α} (h : l.find? p = none) : modifyFirst p f l = l := by
  induction l with
  | nil => rfl
  | cons b l ih =>
    have hb : p b = false := by simpa using List.find?_eq_none.mp h b (by simp)
    rw [List.find?_cons_of_neg (by simp [hb])] at h
    simp [modifyFirst, hb, ih h]

theorem find?_modifyFirst (hp : ∀ a, p a = true → p (f a) = true) (l : List α) :
    (modifyFirst p f l).find? p = (l.find? p).map f := by
  induction l with
  | nil => rfl
  | cons b l ih =>
    cases hb : p b with
    | true => simp [modifyFirst, hb, hp b hb]
    | false => simp [modifyFirst, hb, ih]

theorem find?_modifyFirst_other (hp : ∀ a, p a = true → q a = false ∧ q (f a) = false)
    (l : List α) : (modifyFirst p f l).find? q = l.find? q := by
  induction l with
  | nil => rfl
  | cons b l ih =>
    cases hb : p b with
    | true => simp [modifyFirst, hb, hp b hb]
    | false => cases hq : q b <;> simp [modifyFirst, hb, hq, ih]

theorem modifyFirst_modifyFirst (hp : ∀ a, p a = true → p (f a) = true) (l : List α) :
    modifyFirst p g (modifyFirst p f l) = modifyFirst p (g ∘ f) l := by
  induction l with
  | nil => rfl
  | cons b l ih =>
    cases hb : p b with
    | true => simp [modifyFirst, hb, hp b hb]
    | false => simp [modifyFirst, hb, ih]

theorem map_modifyFirst {β : Type} {k : α → β} (hk : ∀ a, k (f a) = k a) (l : List α) :
    (modifyFirst p f l).map k = l.map k := by
  induction l with
  | nil => rfl
  | cons b l ih =>
    cases hb : p b with
    | true => simp [modifyFirst, hb, hk]
    | false => simp [modifyFirst, hb, ih]

theorem forall_modifyFirst {P : α → Prop} {l : List α} (hl : ∀ a ∈ l, P a)
    (hf : ∀ a, l.find? p = some a → P (f a)) : ∀ a ∈ modifyFirst p f l, P a := by
  induction l with
  | nil => simp [modifyFirst]
  | cons b l ih =>
    cases hb : p b with
    | true =>
      have hfb := hf b (by simp [hb])
      intro a ha
      rw [modifyFirst, if_pos hb] at ha
      cases List.mem_cons.mp ha with
      | inl he => rw [he]; exact hfb
      | inr hm => exact hl a (by simp [hm])
    | false =>
      have htail := ih (fun a ha => hl a (by simp [ha]))
        (fun a ha => hf a (by simp [hb, ha]))
      intro a ha
      rw [modifyFirst, if_neg (by simp [hb])] at ha
      cases List.mem_cons.mp ha with
      | inl he => rw [he]; exact hl b (by simp)
      | inr hm => exact htail a hm

theorem mem_takeWhile_iff {l : List α} {x : α} :
    x ∈ l.takeWhile p ↔ p x = true ∧ ∃ pre post, l = pre ++ x :: post ∧ ∀ y ∈ pre, p y = true := by
  induction l with
  | nil => simp
  | cons a l ih =>
    cases ha : p a with
    | true =>
      rw [List.takeWhile_cons_of_pos ha, List.mem_cons, ih]
      constructor
      · rintro (rfl | ⟨hx, pre, post, rfl, hpre⟩)
        · exact ⟨ha, [], l, rfl, by simp⟩
        · exact ⟨hx, a :: pre, post, rfl, List.forall_mem_cons.mpr ⟨ha, hpre⟩⟩
      · rintro ⟨hx, _ | ⟨b, pre⟩, post, hl, hpre⟩
        · exact Or.inl (List.cons.inj hl).1.symm
        · exact Or.inr ⟨hx, pre, post, (List.cons.inj hl).2, (List.forall_mem_cons.mp hpre).2⟩
    | false =>
      rw [List.takeWhile_cons_of_neg (by simp [ha])]
      constructor
      · simp
      · rintro ⟨hx, _ | ⟨b, pre⟩, post, hl, hpre⟩
        · rw [(List.cons.inj hl).1, hx] at ha
          cases ha
        · have hb := (List.forall_mem_cons.mp hpre).1
          rw [← (List.cons.inj hl).1, ha] at hb
          cases hb

theorem find?_key {κ : Type} [DecidableEq κ] {key : α → κ} {l : List α} (hn : (l.map key).Nodup)
    {a : α} (ha : a ∈ l) : l.find? (fun b => key b = key a) = some a := by
  obtain ⟨b, hb⟩ : ∃ b, l.find? (fun b => decide (key b = key a)) = some b := by
    rw [← Option.isSome_iff_exists, List.find?_isSome]
    exact ⟨a, ha, by simp⟩
  have hkey : key b = key a := by simpa using List.find?_some hb
  rw [hb, List.inj_on_of_nodup_map hn (List.mem_of_find?_eq_some hb) ha hkey]

end P2PCC.Lib.FirstMatch
