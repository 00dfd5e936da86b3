import EntityQuery.Proofs.Preparation.Known
import EntityQuery.Shell.Session

/-!
# What the lines of a session change

A shell over a dataset always queries an entity type that the dataset declares. What a line changes
is the entity type, the user or the clock, and only if it is a command for one of them that is not
refused; all other lines leave the shell as it is. The main statement compares a session with what
these commands alone come to. A query whose preparation would never end counts as refused.
-/

namespace EntityQuery

/-- The commands for the entity type, the user and the clock. -/
def ShellCommand.isSetting : ShellCommand → Bool
  | entity _ | user _ | now _ => true
  | _ => false

/-- The error is that the entity type of a query is not known. -/
inductive ShellError.MissesEntity : ShellError → Prop where
  | shell (name : String) : MissesEntity (.unknownEntity name)
  | query (name : String) :
      MissesEntity (.query (.text (.prepare (.resolve (.unknownEntity name)))))

/-- An entity type of a dataset, bound to its records. -/
def Dataset.bound (d : Dataset) (e : EntityDef) : EntityBinding Record :=
  ⟨e.name, d.registry, .ofCollection (d.records e.name)⟩

/-- All entity types of a dataset can be bound. -/
lemma Dataset.bindings_eq (d : Dataset) : d.bindings = .ok (d.registry.byName.map d.bound) := by
  have hall : ∀ es : List EntityDef, convertAll (fun e => EntityBinding.bind e.name d.registry
      (Memory.repository ⟨d.records e.name, false⟩)) es = .ok (es.map d.bound) := by
    intro es
    induction es with
    | nil => rfl
    | cons e es ih =>
      rw [convertAll, ih]
      rfl
  exact hall d.registry.byName

namespace Shell

variable {d : Dataset} {s t : Shell} {name : String} {wallClock wallClock' : DateTime}
  {line : String} {lines : List String}

/-! ### What a command does -/

/-- The line is a command for the entity type, the user or the clock, and is not refused. -/
def sets (s : Shell) (wallClock : DateTime) (line : String) : Bool :=
  (ShellCommand.ofLine line).isSetting && (s.execute wallClock line).answer.isOk

/-- The lines of a session that are such commands and are not refused where they stand. -/
def settings (wallClock : DateTime) (s : Shell) : List String → List String
  | [] => []
  | line :: lines =>
    let later := settings wallClock (s.execute wallClock line).shell lines
    if s.sets wallClock line then line :: later else later

lemma switch_eq_ok (h : s.switch name = .ok t) :
    t = { s with entity := name } ∧ ∃ b, s.binding? name = some b := by
  unfold switch at h
  split at h
  · exact ⟨(Except.ok.inj h).symm, _, ‹_›⟩
  · cases h

lemma setNow_eq_ok {text : String} (h : s.setNow wallClock text = .ok t) :
    ∃ now, t = s.withNow now := by
  unfold setNow at h
  split at h
  · exact ⟨_, (Except.ok.inj h).symm⟩
  · split at h <;> cases h
    exact ⟨_, rfl⟩

lemma reply_cases (s : Shell) (changed : Except ShellError Shell) (text : Shell → String) :
    (∃ e, changed = .error e ∧ s.reply changed text = ⟨s, [], .error e⟩) ∨
      ∃ t, changed = .ok t ∧ s.reply changed text = ⟨t, [], .ok (text t)⟩ := by
  cases changed with
  | error e => exact .inl ⟨e, rfl, rfl⟩
  | ok t => exact .inr ⟨t, rfl, rfl⟩

/-- A command leaves the shell as it is, or sets the entity type, the user or the clock. -/
lemma run_cases (s : Shell) (wallClock : DateTime) (c : ShellCommand) :
    (s.run wallClock c).shell = s ∨
      (c.isSetting = true ∧ (s.run wallClock c).answer.isOk = true) ∧
        ((∃ name b, s.binding? name = some b ∧
            (s.run wallClock c).shell = { s with entity := name }) ∨
          ∃ context, (s.run wallClock c).shell = { s with context := context }) := by
  cases c with
  | nothing => exact .inl rfl
  | prepared text => exact .inl rfl
  | query text => exact .inl rfl
  | user name => exact .inr ⟨⟨rfl, rfl⟩, .inr ⟨_, rfl⟩⟩
  | entity name =>
    rw [run]
    by_cases hname : name = ""
    · rw [if_pos hname]
      exact .inl rfl
    · rw [if_neg hname]
      obtain ⟨e, -, h⟩ | ⟨t, ht, h⟩ := reply_cases s (s.switch name) fun s => "Querying " ++ s.entity
      · exact .inl (by rw [h])
      · obtain ⟨rfl, b, hb⟩ := switch_eq_ok ht
        rw [h]
        exact .inr ⟨⟨rfl, rfl⟩, .inl ⟨name, b, hb, rfl⟩⟩
  | now text =>
    rw [run]
    obtain ⟨e, -, h⟩ | ⟨t, ht, h⟩ :=
      reply_cases s (s.setNow wallClock text) fun s => "Now: " ++ s.context.now.secondText
    · exact .inl (by rw [h])
    · obtain ⟨now, rfl⟩ := setNow_eq_ok ht
      rw [h]
      exact .inr ⟨⟨rfl, rfl⟩, .inr ⟨_, rfl⟩⟩

/-- Whatever does not set anything leaves the shell as it is. -/
lemma shell_execute_of_not_sets (h : s.sets wallClock line = false) :
    (s.execute wallClock line).shell = s := by
  rcases s.run_cases wallClock (.ofLine line) with hsame | ⟨⟨hsetting, hok⟩, -⟩
  · exact hsame
  · simp [sets, execute, hsetting, hok] at h

/-- The system's clock is only asked where the clock is reset. -/
lemma execute_eq (timed : ShellCommand.ofLine line ≠ .now "") (wallClock wallClock' : DateTime) :
    s.execute wallClock line = s.execute wallClock' line := by
  unfold execute
  cases hc : ShellCommand.ofLine line with
  | now text =>
    have htext : text ≠ "" := by
      rintro rfl
      exact timed hc
    simp only [run, setNow, if_neg htext]
  | _ => rfl

/-- Whether the prepared form of queries is printed does not matter to an answer. -/
lemma answer_verbose (s : Shell) (verbose : Bool) (wallClock : DateTime) (line : String) :
    (({ s with verbose := verbose } : Shell).execute wallClock line).answer =
      (s.execute wallClock line).answer := by
  have hswitch : ∀ name, ({ s with verbose := verbose } : Shell).switch name =
      (s.switch name).map fun t => { t with verbose := verbose } := by
    intro name
    simp only [switch]
    split <;> rename_i h <;> rw [show s.binding? name = _ from h] <;> rfl
  unfold execute
  cases ShellCommand.ofLine line with
  | entity name =>
    by_cases hname : name = ""
    · simp only [run, if_pos hname]
      rfl
    · simp only [run, if_neg hname, hswitch]
      cases s.switch name <;> rfl
  | now text =>
    simp only [run, setNow]
    split
    · rfl
    · split <;> rfl
  | query text =>
    simp only [run, runQuery]
    have hprepare : ({ s with verbose := verbose } : Shell).prepare text = s.prepare text := rfl
    rw [hprepare]
    cases s.prepare text <;> rfl
  | _ => rfl

/-! ### Shells over a dataset -/

/-- The shells that a program can have over a dataset. -/
inductive Reached (d : Dataset) : Shell → Prop where
  | start {entity? : Option String} {context : QueryContext} {s : Shell}
      (started : Shell.start d entity? context = .ok s) : Reached d s
  | execute {s : Shell} (before : Reached d s) (wallClock : DateTime) (line : String) :
      Reached d (s.execute wallClock line).shell
  | switch {s t : Shell} {name : String} (before : Reached d s) (switched : s.switch name = .ok t) :
      Reached d t
  | context {s : Shell} (before : Reached d s) (context : QueryContext) :
      Reached d { s with context := context }
  | verbose {s : Shell} (before : Reached d s) (verbose : Bool) :
      Reached d { s with verbose := verbose }

/-- A shell has the entity types of a dataset, and queries one of them. -/
structure Over (d : Dataset) (s : Shell) : Prop where
  registry : s.registry = d.registry
  bindings : s.bindings = d.registry.byName.map d.bound
  declared : d.registry.Knows s.entity

lemma exists_of_binding? (h : s.bindings = d.registry.byName.map d.bound)
    {b : EntityBinding Record} (hb : s.binding? name = some b) :
    ∃ e ∈ d.registry.entities, e.name = name ∧ b = d.bound e := by
  rw [binding?, h, List.find?_map] at hb
  obtain ⟨e, he, rfl⟩ := Option.map_eq_some_iff.mp hb
  have hname := List.find?_some he
  exact ⟨e, List.mem_mergeSort.mp (List.mem_of_find?_eq_some he), beq_iff_eq.mp hname, rfl⟩

lemma exists_binding? (h : s.bindings = d.registry.byName.map d.bound)
    (known : d.registry.Knows name) : ∃ b, s.binding? name = some b := by
  obtain ⟨e, he, rfl⟩ := known
  rw [← Option.isSome_iff_exists, binding?, h, List.find?_isSome]
  exact ⟨d.bound e, List.mem_map_of_mem (List.mem_mergeSort.mpr he), beq_self_eq_true e.name⟩

lemma Over.switch (h : s.Over d) (hb : ∃ b, s.binding? name = some b) :
    ({ s with entity := name } : Shell).Over d := by
  obtain ⟨b, hb⟩ := hb
  obtain ⟨e, he, hname, -⟩ := exists_of_binding? h.bindings hb
  exact ⟨h.registry, h.bindings, e, he, hname⟩

/-- A command keeps the shell over its dataset. -/
lemma Over.run (h : s.Over d) (wallClock : DateTime) (c : ShellCommand) :
    (s.run wallClock c).shell.Over d := by
  rcases s.run_cases wallClock c with hsame | ⟨-, ⟨name, b, hb, hshell⟩ | ⟨context, hshell⟩⟩
  · rwa [hsame]
  · rw [hshell]
    exact h.switch ⟨b, hb⟩
  · rw [hshell]
    exact ⟨h.registry, h.bindings, h.declared⟩

lemma over_of_start {entity? : Option String} {context : QueryContext}
    (h : Shell.start d entity? context = .ok s) : s.Over d := by
  have hstart : ∀ name, (⟨d.registry, d.registry.byName.map d.bound, "", context, false⟩ : Shell).switch
      name = .ok s → s.Over d := by
    intro name h
    obtain ⟨rfl, b, hb⟩ := switch_eq_ok h
    obtain ⟨e, he, hname, -⟩ := exists_of_binding? rfl hb
    exact ⟨rfl, rfl, e, he, hname⟩
  unfold Shell.start at h
  rw [d.bindings_eq] at h
  simp only [] at h
  split at h
  · exact hstart _ h
  · exact hstart _ h
  · cases h

/-- **Every shell is over its dataset.** -/
theorem Reached.over (h : s.Reached d) : s.Over d := by
  induction h with
  | start started => exact over_of_start started
  | execute _ wallClock line ih => exact ih.run wallClock (.ofLine line)
  | switch _ switched ih =>
    obtain ⟨rfl, hb⟩ := switch_eq_ok switched
    exact ih.switch hb
  | context _ context ih => exact ⟨ih.registry, ih.bindings, ih.declared⟩
  | verbose _ verbose ih => exact ⟨ih.registry, ih.bindings, ih.declared⟩

/-- Shells over one dataset that query the same entity type in the same context answer alike. -/
lemma Over.answer_eq (hs : s.Over d) (ht : t.Over d) (entity : t.entity = s.entity)
    (context : t.context = s.context) (wallClock : DateTime) (line : String) :
    (t.execute wallClock line).answer = (s.execute wallClock line).answer := by
  -- all that is left to differ is whether prepared queries are printed
  have hregistry := ht.registry.trans hs.registry.symm
  have hbindings := ht.bindings.trans hs.bindings.symm
  have hsame : t = { s with verbose := t.verbose } := by
    cases t
    simp_all
  rw [hsame, answer_verbose]

/-! ### Refusals -/

lemma Over.exists_current (h : s.Over d) :
    ∃ e ∈ d.registry.entities, e.name = s.entity ∧ s.current = .ok (d.bound e) := by
  obtain ⟨b, hb⟩ := exists_binding? h.bindings h.declared
  obtain ⟨e, he, hname, rfl⟩ := exists_of_binding? h.bindings hb
  exact ⟨e, he, hname, by rw [current, hb]⟩

/-- A query is refused where its text cannot be read, or cannot be prepared for the entity type. -/
lemma Over.error_of_prepare (h : s.Over d) {text : String} {error : ShellError}
    (refused : s.prepare text = .error error) :
    (∃ fault, error = .query (.text (.parse fault))) ∨
      ∃ q fault, RawQuery.prepare d.registry s.context s.entity q = .error fault ∧
        error = .query (.text (.prepare fault)) := by
  obtain ⟨e, -, hname, hcurrent⟩ := h.exists_current
  unfold prepare at refused
  simp only [hcurrent] at refused
  split at refused
  · rename_i fault hparse
    obtain rfl := Except.error.inj refused
    unfold EntityBinding.parse Registry.prepareText at hparse
    split at hparse
    · rename_i htext
      obtain rfl := Except.error.inj hparse
      split at htext
      · obtain rfl := Except.error.inj htext
        exact .inl ⟨_, rfl⟩
      · rename_i q _
        split at htext
        · rename_i hq
          obtain rfl := Except.error.inj htext
          rw [← hname]
          exact .inr ⟨q, _, hq, rfl⟩
        · cases htext
    · cases hparse
  · cases refused

/-- Running a prepared query is refused where its conditions cannot be evaluated. -/
lemma Over.error_of_answer (h : s.Over d) {text : String} {b : EntityBinding Record}
    {q : PreparedQuery} {error : ShellError} (prepared : s.prepare text = .ok (b, q))
    (refused : s.answer b q = .error error) : ∃ fault, error = .query (.evaluation fault) := by
  obtain ⟨e, he, hname, hcurrent⟩ := h.exists_current
  obtain rfl : b = d.bound e := by
    unfold prepare at prepared
    simp only [hcurrent] at prepared
    split at prepared <;> cases prepared
    rfl
  obtain ⟨e', he'⟩ := Registry.knows_iff.mp h.declared
  unfold answer at refused
  split at refused
  · rename_i fault hfind
    obtain rfl := Except.error.inj refused
    unfold EntityBinding.findAll Dataset.bound Executor.ofCollection Executor.slicing
      Collection.findAll at hfind
    simp only [] at hfind
    split at hfind
    · cases hfind
    · split at hfind <;> cases hfind
      exact ⟨_, rfl⟩
  · simp [h.registry, he'] at refused

/-- A query never misses the entity type that it is about. -/
lemma Over.not_missesEntity {decls : List EntityDecl} (loaded : Dataset.load decls = .ok d)
    (h : s.Over d) {text : String} {error : ShellError} (refused : s.prepare text = .error error) :
    ¬ error.MissesEntity := by
  rcases h.error_of_prepare refused with ⟨fault, rfl⟩ | ⟨q, fault, hq, rfl⟩
  · rintro ⟨⟩
  · rintro ⟨⟩
    exact RawQuery.prepare_ne_unknownEntity loaded h.declared q s.context _ hq

/-- An entity type is only missed where it is to be switched to. -/
lemma Over.of_missesEntity {decls : List EntityDecl} (loaded : Dataset.load decls = .ok d)
    (h : s.Over d) {c : ShellCommand} {error : ShellError}
    (refused : (s.run wallClock c).answer = .error error) (misses : error.MissesEntity) :
    ∃ name, c = .entity name ∧ ¬ d.registry.Knows name ∧ error = .unknownEntity name := by
  cases c with
  | nothing => cases refused
  | user name => cases refused
  | entity name =>
    rw [Shell.run] at refused
    by_cases hname : name = ""
    · rw [if_pos hname] at refused
      cases refused
    · rw [if_neg hname] at refused
      unfold Shell.switch at refused
      split at refused
      · cases refused
      · rename_i hnone
        obtain rfl := Except.error.inj refused
        refine ⟨name, rfl, fun known => ?_, rfl⟩
        obtain ⟨b, hb⟩ := exists_binding? h.bindings known
        cases hnone.symm.trans hb
  | now text =>
    rw [Shell.run] at refused
    unfold setNow at refused
    split at refused
    · cases refused
    · split at refused
      · cases refused
      · obtain rfl := Except.error.inj refused
        cases misses
  | prepared text =>
    have hprepare : s.prepare text = .error error := eq_error_of_map refused
    exact absurd misses (h.not_missesEntity loaded hprepare)
  | query text =>
    rw [Shell.run, runQuery] at refused
    cases hprepare : s.prepare text with
    | error e =>
      simp only [hprepare, Except.error.injEq] at refused
      exact absurd misses (h.not_missesEntity loaded (refused ▸ hprepare))
    | ok prepared =>
      simp only [hprepare] at refused
      obtain ⟨fault, rfl⟩ := h.error_of_answer hprepare refused
      cases misses

/-! ### Sessions -/

/-- A session comes to what its settings alone come to. -/
lemma runLines_settings (timed : ∀ line ∈ lines, ShellCommand.ofLine line ≠ .now "")
    (wallClock wallClock' : DateTime) :
    (s.runLines wallClock' (s.settings wallClock lines)).1 = (s.runLines wallClock lines).1 := by
  induction lines generalizing s with
  | nil => rfl
  | cons line lines ih =>
    have htimed := timed line List.mem_cons_self
    have hlater := fun s => ih (s := s) fun line hline => timed line (List.mem_cons_of_mem _ hline)
    cases hsets : s.sets wallClock line with
    | true =>
      simp only [settings, hsets, if_true, runLines]
      rw [execute_eq htimed wallClock' wallClock]
      exact hlater _
    | false =>
      have hsame := shell_execute_of_not_sets hsets
      simp only [settings, hsets, runLines, hsame]
      exact hlater s

end Shell

namespace Office

/-- Groups and the persons in them. -/
def decls : List EntityDecl :=
  [⟨"Person", "name", [⟨"name", .text, false, none⟩, ⟨"group", .entity "Group", true, none⟩],
      [[("name", .string "bob"), ("group", .string "sales")]]⟩,
    ⟨"Group", "id", [⟨"id", .text, false, none⟩], [[("id", .string "sales")]]⟩]

/-- The entity type of persons. -/
def person : EntityDef :=
  ⟨"Person", "name", [⟨"name", .text, false, none⟩, ⟨"group", .entity "Group", true, none⟩]⟩

/-- The entity type of groups. -/
def group : EntityDef :=
  ⟨"Group", "id", [⟨"id", .text, false, none⟩]⟩

/-- The dataset that is loaded. -/
def dataset : Dataset where
  registry := ⟨[person, group]⟩
  store := ⟨[⟨"Person", "name", [[("name", .text "bob"), ("group", .ref "Group" (.text "sales"))]]⟩,
    ⟨"Group", "id", [[("id", .text "sales")]]⟩]⟩

lemma load_decls : Dataset.load decls = .ok dataset :=
  rfl

/-- The first day of a year. -/
def newYear : DateTime :=
  .startOf ⟨2030, 1, 1, by decide⟩

/-- The shell at first: groups come before persons. -/
def shell : Shell :=
  ⟨dataset.registry, [dataset.bound group, dataset.bound person], "Group", ⟨newYear, none⟩, false⟩

lemma start_dataset : Shell.start dataset none ⟨newYear, none⟩ = .ok shell := by
  have hafter : (compare person.name group.name != .gt) = false := by decide
  have hbyName : dataset.registry.byName = [group, person] := by
    simp [Registry.byName, dataset, List.mergeSort, List.MergeSort.Internal.splitInTwo, hafter]
  rw [Shell.start, Dataset.bindings_eq, hbyName]
  rfl

/-- A session in which most lines are refused or only ask. -/
def session : List String :=
  ["\\now tomorrow", "\\e Nobody", "-- persons", "\\e Person", "name = currentUser()",
    "  \\user bob", "", "\\now 2030-06-01 12:00", "\\p group.id = 'sales'"]

end Office

end EntityQuery
