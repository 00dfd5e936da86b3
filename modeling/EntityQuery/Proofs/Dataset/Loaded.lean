import EntityQuery.Dataset.Load
import EntityQuery.Proofs.Registry.Built
import Mathlib.Data.List.Forall2
import Mathlib.Tactic.Common

/-!
# Loaded tables

A loaded dataset has a table for every entity type of its registry. The records in it have values
that were converted to the declared types, and an id; and the record that a reference leads to is one
whose id has the literal of the reference's.
-/

namespace EntityQuery

/-- A table of records of an entity type, with values that were read for the declared types. -/
structure Table.Fits (t : Table) (e : EntityDef) : Prop where
  entity : t.entity = e.name
  idProperty : t.idProperty = e.idProperty
  value {row : Row} {name : String} {p : PropertyDef} (mem : row ∈ t.rows)
    (declared : e.property? name = some p) : ∃ j, Value.ofJson p.type j = .ok (row.get name)
  id {row : Row} (mem : row ∈ t.rows) : (row.get t.idProperty).isNull = false

/-- What is found first in one of two related lists is related to what is found in the other. -/
lemma exists_find?_of_forall₂ {α β : Type} {R : α → β → Prop} {p : α → Bool} {q : β → Bool}
    {as : List α} {bs : List β} {b : β} (h : List.Forall₂ R as bs) (agree : ∀ a b, R a b → p a = q b)
    (hb : bs.find? q = some b) : ∃ a, as.find? p = some a ∧ R a b := by
  induction h with
  | nil => simp at hb
  | @cons a b' as bs hab _ ih =>
    cases hq : q b' with
    | true =>
      rw [List.find?_cons_of_pos hq] at hb
      obtain rfl := Option.some.inj hb
      exact ⟨a, List.find?_cons_of_pos ((agree a b' hab).trans hq), hab⟩
    | false =>
      rw [List.find?_cons_of_neg (by simp [hq])] at hb
      obtain ⟨c, hc, hcb⟩ := ih hb
      exact ⟨c, by rwa [List.find?_cons_of_neg (by simp [agree a b' hab, hq])], hcb⟩

lemma forall₂_of_convertAll {α β ε : Type} {convert : α → Except ε β} {as : List α} {bs : List β}
    (h : convertAll convert as = .ok bs) : List.Forall₂ (fun a b => convert a = .ok b) as bs := by
  induction as generalizing bs with
  | nil =>
    obtain rfl := Except.ok.inj h
    exact .nil
  | cons a as ih =>
    rw [convertAll] at h
    cases ha : convert a with
    | error e => simp [ha] at h
    | ok b =>
      simp only [ha] at h
      cases has : convertAll convert as with
      | error e => simp [has, Except.map] at h
      | ok bs' =>
        simp only [has, Except.map, Except.ok.injEq] at h
        exact h ▸ .cons ha (ih has)

namespace EntityDecl

variable {d : EntityDecl} {e : EntityDef} {t t' : Table} {row : Row}

/-! ### Declarations -/

/-- A declared property as it enters the registry. -/
def entered (d : EntityDecl) (p : PropertyDef) : PropertyDef :=
  if p.name = d.idProperty then ⟨p.name, p.type, false, none⟩ else p

lemma entered_name (d : EntityDecl) (p : PropertyDef) : (d.entered p).name = p.name := by
  unfold entered
  split <;> rfl

lemma entered_type (d : EntityDecl) (p : PropertyDef) : (d.entered p).type = p.type := by
  unfold entered
  split <;> rfl

/-- The entity type that a declaration enters into the registry. -/
def definition (d : EntityDecl) : EntityDef :=
  ⟨d.name, d.idProperty, d.properties.map d.entered⟩

/-- Whatever a draft has already, the declared properties come behind it. -/
lemma foldl_draft (d : EntityDecl) (ps : List PropertyDef) (draft : EntityDraft) :
    let drafted := ps.foldl (fun draft p =>
      if p.name = d.idProperty then draft.withId p.name p.type else draft.withProperty p) draft
    drafted.name = draft.name ∧ drafted.properties = draft.properties ++ ps.map d.entered ∧
      (drafted.idProperty? = draft.idProperty? ∨ drafted.idProperty? = some d.idProperty) := by
  induction ps generalizing draft with
  | nil => simp
  | cons p ps ih =>
    rw [List.foldl_cons]
    obtain ⟨hname, hproperties, hid⟩ := ih (if p.name = d.idProperty then
      draft.withId p.name p.type else draft.withProperty p)
    split at hname <;> rename_i hp
    · simp_all [EntityDraft.withId, entered]
    · simp_all [EntityDraft.withProperty, entered]

lemma add_draft {b b' : RegistryBuilder} (h : b.add d.draft = .ok b') :
    b'.entities = b.entities ++ [d.definition] := by
  obtain ⟨hname, hproperties, hid⟩ := foldl_draft d d.properties (.named d.name)
  have hid : ∀ id, d.draft.idProperty? = some id → id = d.idProperty := by
    intro id hsome
    rcases hid with hnone | hsome'
    · cases hnone.symm.trans hsome
    · exact (Option.some.inj (hsome'.symm.trans hsome)).symm
  obtain ⟨-, -, id, hsome, rfl⟩ := RegistryBuilder.add_eq_ok.mp h
  obtain rfl := hid id hsome
  exact congrArg (fun e => b.entities ++ [e])
    (congrArg₂ (fun name ps => EntityDef.mk name d.idProperty ps) hname hproperties)

/-- The registry has the declared entity types, in their order. -/
lemma entities_of_registry {decls : List EntityDecl} {r : Registry} (h : registry decls = .ok r) :
    r.entities = decls.map definition := by
  have hgo : ∀ b, registry.go b decls = .ok r → r.entities = b.entities ++ decls.map definition := by
    clear h
    induction decls with
    | nil =>
      intro b h
      simpa using (RegistryBuilder.build_eq_ok.mp h).1
    | cons d ds ih =>
      intro b h
      rw [registry.go] at h
      cases hadd : b.add d.draft with
      | error e => simp [hadd] at h
      | ok b' =>
        simp only [hadd] at h
        rw [ih b' h, add_draft hadd, List.map_cons, List.append_assoc]
        rfl
  simpa [RegistryBuilder.empty] using hgo .empty h

lemma property?_definition (d : EntityDecl) (name : String) :
    d.definition.property? name =
      (d.properties.find? fun p => p.name == name).map d.entered := by
  rw [EntityDef.property?, definition, List.find?_map]
  simp only [Function.comp_def, entered_name]

/-- The property that identifies records has no translator. -/
lemma translator?_id {p : PropertyDef} (h : d.definition.id? = some p) : p.translator? = none := by
  rw [EntityDef.id?, property?_definition] at h
  obtain ⟨p', hp', rfl⟩ := Option.map_eq_some_iff.mp h
  have hfound := List.find?_some hp'
  have hname : p'.name = d.idProperty := beq_iff_eq.mp hfound
  rw [entered, if_pos hname]

/-! ### Records -/

/-- A record has a value for every declared property, read for its type. -/
lemma value_of_row {record : List (String × Json)} (h : d.row record = .ok row) {name : String}
    {p : PropertyDef} (declared : d.properties.find? (fun p => p.name == name) = some p) :
    ∃ j, Value.ofJson p.type j = .ok (row.get name) := by
  have hrow : convertAll (propertyValue record) d.properties = .ok row := by
    unfold EntityDecl.row at h
    split at h
    · cases h
    · rename_i row' hrow
      split at h
      · cases h
      · rwa [Except.ok.inj h] at hrow
  clear h
  have hvalues := forall₂_of_convertAll hrow
  clear hrow
  generalize d.properties = ps at hvalues declared
  induction hvalues with
  | nil => simp at declared
  | @cons p' v ps row hv _ ih =>
    have hread : v.1 = p'.name ∧ ∃ j, Value.ofJson p'.type j = .ok v.2 := by
      unfold propertyValue at hv
      split at hv
      · rename_i v' hv'
        obtain rfl := Except.ok.inj hv
        exact ⟨rfl, _, hv'⟩
      · cases hv
    obtain ⟨hname, hread⟩ := hread
    rw [List.find?_cons] at declared
    cases hfirst : p'.name == name with
    | true =>
      simp only [hfirst, Option.some.injEq] at declared
      subst declared
      have hlookup : List.lookup name (v :: row) = some v.2 := by
        rw [List.lookup_cons, hname]
        simp only [beq_iff_eq.mp hfirst, beq_self_eq_true]
      rwa [Row.get, hlookup]
    | false =>
      simp only [hfirst] at declared
      have hlookup : List.lookup name (v :: row) = List.lookup name row := by
        rw [List.lookup_cons, hname]
        have hne : (name == p'.name) = false := by
          rw [Bool.beq_comm, hfirst]
        simp only [hne]
      rw [Row.get, hlookup]
      exact ih declared

/-- Adding a record keeps a table fitting. -/
lemma fits_of_addRow {record : List (String × Json)} (ht : t.Fits d.definition)
    (h : d.addRow t record = .ok t') : t'.Fits d.definition := by
  unfold addRow at h
  split at h
  · cases h
  · rename_i row hrow
    simp only [] at h
    split at h
    · cases h
    · rename_i hid
      split at h
      · cases h
      · obtain rfl := Except.ok.inj h
        refine ⟨ht.entity, ht.idProperty, fun hmem declared => ?_, fun hmem => ?_⟩
        · rcases List.mem_append.mp hmem with hmem | hmem
          · exact ht.value hmem declared
          · obtain rfl := List.mem_singleton.mp hmem
            rw [property?_definition] at declared
            obtain ⟨p, hp, rfl⟩ := Option.map_eq_some_iff.mp declared
            rw [entered_type]
            exact value_of_row hrow hp
        · rcases List.mem_append.mp hmem with hmem | hmem
          · exact ht.id hmem
          · obtain rfl := List.mem_singleton.mp hmem
            simpa using hid

lemma fits_of_addRows {records : List (List (String × Json))} (ht : t.Fits d.definition)
    (h : d.addRows t records = .ok t') : t'.Fits d.definition := by
  induction records generalizing t with
  | nil =>
    obtain rfl := Except.ok.inj h
    exact ht
  | cons record rest ih =>
    rw [addRows] at h
    split at h
    · cases h
    · rename_i t'' hadd
      exact ih (fits_of_addRow ht hadd) h

lemma fits_of_table (h : d.table = .ok t) : t.Fits d.definition :=
  fits_of_addRows ⟨rfl, rfl, fun hmem _ => absurd hmem List.not_mem_nil,
    fun hmem => absurd hmem List.not_mem_nil⟩ h

end EntityDecl

namespace Dataset

variable {decls : List EntityDecl} {d : Dataset} {name : String}

/-- **Loading**: the table of an entity type fits it, and the property that identifies the records
in it has no translator. -/
theorem fits_of_load (h : load decls = .ok d) {t : Table} (ht : d.store.table? name = some t) :
    ∃ e, d.registry.entity? name = some e ∧ t.Fits e ∧ ∀ p, e.id? = some p → p.translator? = none := by
  unfold load at h
  cases hregistry : EntityDecl.registry decls with
  | error e => simp [hregistry] at h
  | ok r =>
    simp only [hregistry] at h
    cases htables : convertAll EntityDecl.table decls with
    | error e => simp [htables, Except.map] at h
    | ok tables =>
      simp only [htables, Except.map, Except.ok.injEq] at h
      subst h
      have hfits : List.Forall₂ (fun d t => Table.Fits t d.definition) decls tables :=
        (forall₂_of_convertAll htables).imp fun _ _ => EntityDecl.fits_of_table
      obtain ⟨d, hd, hfit⟩ := exists_find?_of_forall₂ (p := fun d => d.definition.name == name) hfits
        (fun d t hfit => by rw [hfit.entity]) ht
      refine ⟨d.definition, ?_, hfit, fun p => EntityDecl.translator?_id⟩
      rw [Registry.entity?, EntityDecl.entities_of_registry hregistry, List.find?_map]
      exact congrArg (Option.map EntityDecl.definition) hd

end Dataset

end EntityQuery
