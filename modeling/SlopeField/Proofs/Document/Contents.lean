import SlopeField.Proofs.Document.Grammar

/-!
# What sections add up to

A document made of sections has their titles and keys, each once, and under each
key what the last line with it says (`holds_ofSections`). Everything follows
from what one change of a list of pairs does to its keys and lookups.
-/

namespace SlopeField

variable {β : Type} {f : Option β → β}

theorem lookup_cons_eq_if (k : String) (v : β) (l : List (String × β)) (key : String) :
    ((k, v) :: l).lookup key = if key = k then some v else l.lookup key := by
  by_cases h : key = k
  · simp [h]
  · rw [List.lookup_cons, beq_false_of_ne h, if_neg h]

theorem lookup_alter (key : String) (f : Option β → β) (l : List (String × β)) (k : String) :
    (alter key f l).lookup k = if k = key then some (f (l.lookup key)) else l.lookup k := by
  induction l with
  | nil => rw [alter, lookup_cons_eq_if]; rfl
  | cons part l ih =>
    obtain ⟨k', v⟩ := part
    simp only [alter, lookup_cons_eq_if]
    by_cases hkey : k' = key
    · by_cases hk : k = key <;> simp [lookup_cons_eq_if, hkey, hk]
    · by_cases hk : k = k'
      · simp [hkey, hk]
      · simp [lookup_cons_eq_if, hkey, hk, ih, Ne.symm hkey]

theorem keys_alter (key : String) (f : Option β → β) (l : List (String × β)) :
    (alter key f l).map Prod.fst =
      if key ∈ l.map Prod.fst then l.map Prod.fst else l.map Prod.fst ++ [key] := by
  induction l with
  | nil => rfl
  | cons part l ih =>
    obtain ⟨k', v⟩ := part
    simp only [alter]
    by_cases hkey : k' = key
    · simp [hkey]
    · by_cases hmem : key ∈ l.map Prod.fst <;> simp_all [Ne.symm hkey]

theorem mem_keys_alter {key : String} {l : List (String × β)} {k : String} :
    k ∈ (alter key f l).map Prod.fst ↔ k ∈ l.map Prod.fst ∨ k = key := by
  rw [keys_alter]
  split
  · exact ⟨.inl, fun h => h.elim id fun h => h ▸ ‹_›⟩
  · simp

theorem nodup_keys_alter {key : String} {l : List (String × β)} (h : (l.map Prod.fst).Nodup) :
    ((alter key f l).map Prod.fst).Nodup := by
  rw [keys_alter]
  split
  · exact h
  · rename_i hkey
    rw [List.nodup_append]
    exact ⟨h, by simp, fun a ha b hb hab =>
      hkey (List.mem_singleton.mp hb ▸ hab ▸ ha)⟩

theorem mem_alter {key : String} {l : List (String × β)} {part : String × β}
    (h : part ∈ alter key f l) :
    part ∈ l ∨ ∃ b, part.2 = f b ∧ ∀ v, b = some v → (part.1, v) ∈ l := by
  induction l with
  | nil =>
    obtain rfl : part = (key, f none) := by simpa [alter] using h
    exact .inr ⟨none, rfl, by simp⟩
  | cons part' l ih =>
    obtain ⟨k', v⟩ := part'
    simp only [alter] at h
    split at h
    · obtain rfl | h := List.mem_cons.mp h
      · exact .inr ⟨some v, rfl, by simp⟩
      · exact .inl (.tail _ h)
    · obtain rfl | h := List.mem_cons.mp h
      · exact .inl (.head _)
      · obtain h | ⟨b, hb, hmem⟩ := ih h
        · exact .inl (.tail _ h)
        · exact .inr ⟨b, hb, fun v hv => .tail _ (hmem v hv)⟩

namespace Document

-- ---------------------------------------------------------------------------
-- The last line with a key
-- ---------------------------------------------------------------------------

theorem lastEntry_append (entries entries' : List Entry) (key : String) :
    lastEntry (entries ++ entries') key = (lastEntry entries' key).or (lastEntry entries key) := by
  simp [lastEntry, List.getLast?_append]

theorem entriesUnder_cons (s : Section) (ss : List Section) (title : String) :
    entriesUnder (s :: ss) title =
      if s.title = title then s.entries ++ entriesUnder ss title else entriesUnder ss title := by
  by_cases h : s.title = title <;> simp [entriesUnder, h]

-- ---------------------------------------------------------------------------
-- Lines into fields
-- ---------------------------------------------------------------------------

theorem lookup_addEntries (entries : List Entry) (fields : Fields) (key : String) :
    (entries.foldl addEntry fields).lookup key =
      ((lastEntry entries key).map fun e => some e.values).or (fields.lookup key) := by
  induction entries generalizing fields with
  | nil => rfl
  | cons e entries ih =>
    rw [List.foldl_cons, ih, ← List.singleton_append, lastEntry_append, addEntry, lookup_alter]
    by_cases hkey : key = e.key
    · cases lastEntry entries key <;> simp [lastEntry, hkey]
    · cases lastEntry entries key <;> simp [lastEntry, hkey, Ne.symm hkey]

theorem nodup_addEntries {entries : List Entry} {fields : Fields}
    (h : (fields.map Prod.fst).Nodup) : ((entries.foldl addEntry fields).map Prod.fst).Nodup := by
  induction entries generalizing fields with
  | nil => exact h
  | cons e entries ih => exact ih (nodup_keys_alter h)

-- ---------------------------------------------------------------------------
-- Sections into documents
-- ---------------------------------------------------------------------------

theorem field?_addSection (d : Document) (s : Section) (title key : String) :
    (d.addSection s).field? title key = if s.title = title then
      ((lastEntry s.entries key).map fun e => some e.values).or (d.field? title key)
    else d.field? title key := by
  simp only [field?, addSection, lookup_alter]
  by_cases htitle : s.title = title
  · subst htitle
    cases d.sections.lookup s.title <;> simp [lookup_addEntries]
  · simp [htitle, Ne.symm htitle]

theorem field?_addSections (ss : List Section) (d : Document) (title key : String) :
    (ss.foldl addSection d).field? title key =
      ((lastEntry (entriesUnder ss title) key).map fun e => some e.values).or
        (d.field? title key) := by
  induction ss generalizing d with
  | nil => rfl
  | cons s ss ih =>
    rw [List.foldl_cons, ih, field?_addSection, entriesUnder_cons]
    split
    · rw [lastEntry_append]
      cases lastEntry (entriesUnder ss title) key <;> rfl
    · rfl

theorem mem_titles_addSections {ss : List Section} {d : Document} {title : String} :
    title ∈ (ss.foldl addSection d).sections.map Prod.fst ↔
      title ∈ d.sections.map Prod.fst ∨ title ∈ ss.map Section.title := by
  induction ss generalizing d with
  | nil => simp
  | cons s ss ih =>
    rw [List.foldl_cons, ih, addSection, mem_keys_alter, List.map_cons, List.mem_cons, or_assoc]

def Unique (d : Document) : Prop :=
  (d.sections.map Prod.fst).Nodup ∧ ∀ part ∈ d.sections, (part.2.map Prod.fst).Nodup

theorem Unique.addSection {d : Document} (h : d.Unique) (s : Section) :
    (d.addSection s).Unique := by
  refine ⟨nodup_keys_alter h.1, fun part hpart => ?_⟩
  obtain hpart | ⟨fields, hfields, hmem⟩ := mem_alter hpart
  · exact h.2 part hpart
  · rw [hfields]
    refine nodup_addEntries ?_
    cases fields with
    | none => exact List.nodup_nil
    | some fields => exact h.2 _ (hmem fields rfl)

theorem unique_addSections (ss : List Section) {d : Document} (h : d.Unique) :
    (ss.foldl addSection d).Unique := by
  induction ss generalizing d with
  | nil => exact h
  | cons s ss ih => exact ih (h.addSection s)

theorem holds_ofSections (ss : List Section) : (ofSections ss).Holds ss := by
  obtain ⟨htitles, hkeys⟩ := unique_addSections ss (d := {}) ⟨List.nodup_nil, by simp⟩
  exact ⟨htitles, hkeys, fun title => mem_titles_addSections.trans (by simp),
    fun title key => (field?_addSections ss {} title key).trans (by simp [field?])⟩

end Document

end SlopeField
