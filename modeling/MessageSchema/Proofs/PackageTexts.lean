import MessageSchema.Proofs.FirstFlaw
import MessageSchema.Proofs.JobRun

/-! # Where a package text leads

A registration walks along the segments of a package text and ignores all empty segments in front;
the lookup of a package ignores one leading dot and takes every other segment as it is.  No package
inside the root has the empty segment (`Registry.has_ofHistory`), so the two walks part only at a
text that begins with two dots: the lookup finds nothing there (`Registry.package?_ofHistory`).

Main statement: the package in which a registration puts its message is the one that the lookup of
the same text finds, or the text begins with two dots, and this is the only way in which a file
fails for want of its package (`Registry.package?_register_agrees`). -/

namespace MessageSchema

/-! ### Leading separators -/

namespace Text

/-- `s` without all its leading characters `c`. -/
def stripLeading (c : Char) (s : String) : String := String.ofList (s.toList.dropWhile (· = c))

theorem startsWith_iff {c : Char} {s : String} :
    startsWith c s = true ↔ ∃ rest, s.toList = c :: rest := by
  rw [startsWith]
  cases s.toList with
  | nil => simp
  | cons d rest => simp

theorem dropLeading_of_toList_eq_cons {c : Char} {s : String} {rest : List Char}
    (h : s.toList = c :: rest) : dropLeading c s = String.ofList rest := by
  rw [dropLeading, h]
  exact if_pos rfl

theorem dropLeading_append (c : Char) (s : String) :
    dropLeading c (String.singleton c ++ s) = s := by
  have h : (String.singleton c ++ s).toList = c :: s.toList := by simp
  rw [dropLeading_of_toList_eq_cons h, String.ofList_toList]

theorem dropLeading_of_not_startsWith {c : Char} {s : String} (h : ¬ startsWith c s = true) :
    dropLeading c s = s := by
  rw [startsWith_iff] at h
  rw [dropLeading]
  split
  · rfl
  next d rest hs =>
    split
    next hd =>
      obtain rfl := hd
      exact absurd ⟨rest, hs⟩ h
    next => rfl

theorem pieces_of_toList_eq_cons {c : Char} {s : String} {rest : List Char}
    (h : s.toList = c :: rest) : pieces c s = "" :: pieces c (String.ofList rest) := by
  simp [pieces, h, List.splitOn_cons_eq_if_modifyHead]

theorem head?_pieces_of_not_startsWith {c : Char} {s : String} (h : ¬ startsWith c s = true)
    (hne : s ≠ "") : (pieces c s).head? ≠ some "" := by
  rw [startsWith_iff] at h
  cases hs : s.toList with
  | nil => exact absurd (String.toList_eq_nil_iff.mp hs) hne
  | cons d rest =>
      have hd : ¬ d = c := by
        rintro rfl
        exact h ⟨rest, hs⟩
      cases hr : rest.splitOn c with
      | nil => exact absurd hr (List.splitOn_ne_nil c rest)
      | cons first others =>
          simp [pieces, hs, List.splitOn_cons_eq_if_modifyHead, hd, hr]

end Text

namespace PackagePath

/-- The text begins with two dots. -/
def TwoDots (text : String) : Prop := ['.', '.'] <+: text.toList

instance : DecidablePred TwoDots :=
  fun text => inferInstanceAs (Decidable (['.', '.'] <+: text.toList))

theorem twoDots_iff {text : String} :
    TwoDots text ↔ Text.startsWith '.' (Text.dropLeading '.' text) = true := by
  by_cases h : Text.startsWith '.' text = true
  · obtain ⟨rest, hs⟩ := Text.startsWith_iff.mp h
    rw [Text.dropLeading_of_toList_eq_cons hs, Text.startsWith_iff, TwoDots, hs,
      List.cons_prefix_cons, String.toList_ofList]
    cases rest with
    | nil => simp
    | cons d rest => simp [eq_comm]
  · rw [Text.dropLeading_of_not_startsWith h]
    refine iff_of_false ?_ h
    rintro ⟨rest, hs⟩
    exact h (Text.startsWith_iff.mpr ⟨_, hs.symm⟩)

/-- One leading dot makes no difference to the path of a text. -/
theorem ofText_dropLeading (text : String) : ofText (Text.dropLeading '.' text) = ofText text := by
  by_cases h : Text.startsWith '.' text = true
  · obtain ⟨rest, hs⟩ := Text.startsWith_iff.mp h
    rw [Text.dropLeading_of_toList_eq_cons hs, ofText, ofText,
      Text.pieces_of_toList_eq_cons hs, List.dropWhile_cons, if_pos (by simp)]
  · rw [Text.dropLeading_of_not_startsWith h]

theorem ofText_eq_pieces {text : String} (h : ¬ Text.startsWith '.' text = true) (hne : text ≠ "") :
    ofText text = Text.pieces '.' text := by
  have hhead := Text.head?_pieces_of_not_startsWith h hne
  rw [ofText]
  cases hp : Text.pieces '.' text with
  | nil => rfl
  | cons first rest =>
      rw [hp] at hhead
      rw [List.dropWhile_cons, if_neg]
      simpa using hhead

/-- The package of a text has the name that is left when all leading dots are taken away. -/
theorem name_ofText (text : String) : name (ofText text) = Text.stripLeading '.' text := by
  rw [← String.ofList_toList (s := text)]
  induction text.toList with
  | nil => rfl
  | cons c rest ih =>
      by_cases hc : c = '.'
      · subst hc
        have hdrop := Text.dropLeading_of_toList_eq_cons
          (String.toList_ofList (l := '.' :: rest))
        rw [← ofText_dropLeading, hdrop, ih]
        simp [Text.stripLeading]
      · have hs : ¬ Text.startsWith '.' (String.ofList (c :: rest)) = true := by
          simpa [Text.startsWith] using hc
        have hne : String.ofList (c :: rest) ≠ "" := by simp [← String.toList_inj]
        rw [ofText_eq_pieces hs hne, name, Text.joined_pieces]
        simp [Text.stripLeading, hc]

/-- The name of a package begins with no dot. -/
theorem Proper.dropLeading_name {path : PackagePath} (h : Proper path) :
    Text.dropLeading '.' (name path) = name path := by
  apply Text.dropLeading_of_not_startsWith
  intro hs
  obtain ⟨rest, hrest⟩ := Text.startsWith_iff.mp hs
  have hpieces := Text.pieces_of_toList_eq_cons hrest
  have hne : path ≠ [] := by
    rintro rfl
    cases hrest
  rw [h.pieces_name hne] at hpieces
  exact h.1 (congrArg List.head? hpieces)

end PackagePath

/-! ### The packages of a registry -/

namespace Registry

theorem has_empty {q : PackagePath} : empty.has q = true ↔ q = [] := by
  rw [has, show empty.root = {} from rfl, Package.at?_empty]
  split <;> simp_all

theorem has_registerEach (r : Registry) (history : History) (q : PackagePath) :
    (r.registerEach history).value.has q = true ↔
      r.has q = true ∨ ∃ e ∈ history, q <+: PackagePath.ofText e.package := by
  induction history generalizing r with
  | nil => simp [registerEach]
  | cons e history ih =>
      refine (ih (r.insert (PackagePath.ofText e.package) e.message)).trans ?_
      simp only [has_insert, or_assoc, List.mem_cons, exists_eq_or_imp]

/-- The packages are the root and those on the paths of the registrations. -/
theorem has_ofHistory {history : History} {q : PackagePath} :
    (ofHistory history).has q = true ↔
      q = [] ∨ ∃ e ∈ history, q <+: PackagePath.ofText e.package := by
  rw [ofHistory, has_registerEach, has_empty]

theorem not_has_empty_segment (history : History) (rest : PackagePath) :
    ¬ (ofHistory history).has ("" :: rest) = true := by
  rw [has_ofHistory]
  rintro (h | ⟨e, _, t, ht⟩)
  · cases h
  · apply PackagePath.head?_ofText e.package
    rw [← ht]
    rfl

/-- The lookup of a package text finds the package at the path of the text, unless the text begins
with two dots. -/
theorem package?_ofHistory (history : History) (text : String) :
    (ofHistory history).package? text =
      if PackagePath.TwoDots text then none
      else if (ofHistory history).has (PackagePath.ofText text) then some (PackagePath.ofText text)
      else none := by
  rw [package?, ← PackagePath.ofText_dropLeading text]
  simp only [PackagePath.twoDots_iff]
  -- from here on `s` is the text that the lookup cuts into pieces
  generalize Text.dropLeading '.' text = s
  by_cases hs : Text.startsWith '.' s = true
  · obtain ⟨rest, hrest⟩ := Text.startsWith_iff.mp hs
    have hne : s ≠ "" := by
      rintro rfl
      cases hrest
    rw [if_pos hs, if_neg hne, Text.pieces_of_toList_eq_cons hrest,
      if_neg (not_has_empty_segment history _)]
  · rw [if_neg hs]
    by_cases hne : s = ""
    · subst hne
      rfl
    · rw [if_neg hne, PackagePath.ofText_eq_pieces hs hne]

theorem package?_ofHistory_of_mem {history : History} {e : Registration} (he : e ∈ history) :
    (ofHistory history).package? e.package =
      if PackagePath.TwoDots e.package then none else some (PackagePath.ofText e.package) := by
  have hhas : (ofHistory history).has (PackagePath.ofText e.package) = true :=
    has_ofHistory.mpr (.inr ⟨e, he, List.prefix_refl _⟩)
  rw [package?_ofHistory, if_pos hhas]

theorem register_ofHistory (history : History) (text : String) (m : Located Message) :
    ((ofHistory history).register text m).value = ofHistory (history ++ [⟨text, m⟩]) :=
  (registerEach_append empty history [⟨text, m⟩]).symm

end Registry

/-- A message that is registered, and whose name its package sees in no other registration, is the
last of that name. -/
theorem History.last?_eq_some {history : History} {e : Registration} (he : e ∈ history)
    (hu : ∀ e' ∈ history, PackagePath.ofText e'.package = PackagePath.ofText e.package →
      e'.message.item.name = e.message.item.name → e'.message = e.message) :
    history.last? (PackagePath.ofText e.package) e.message.item.name = some e.message := by
  rw [last?]
  cases h : history.reverse.find? fun e' =>
      PackagePath.ofText e.package = PackagePath.ofText e'.package ∧
        e'.message.item.name = e.message.item.name with
  | none =>
      have := List.find?_eq_none.mp h e (List.mem_reverse.mpr he)
      simp at this
  | some e' =>
      have hp := List.find?_some h
      rw [decide_eq_true_eq] at hp
      have he' := List.mem_reverse.mp (List.mem_of_find?_eq_some h)
      rw [Option.map_some, hu e' he' hp.1.symm hp.2]

/-! ### Files whose package is not found -/

theorem Context.outcome_schemaOf_ne_packageNotFound (ctx : Context) (m : Located Message)
    (package : String) : (ctx.schemaOf m).outcome ≠ .error (.packageNotFound package) := by
  intro h
  have hanswer := ctx.answers_schemaOf m
  rw [h] at hanswer
  obtain ⟨_, ⟨_, _, _, _, hfault⟩, _⟩ := hanswer
  cases hfault

namespace Registry

variable {history : History} {f : Located File} {options : Options}

/-- A file with messages whose package is registered. -/
theorem outcome_documents_ofHistory {e : Registration} (he : e ∈ history)
    (hp : e.package = f.item.package) (hm : f.item.messages ≠ []) :
    ((ofHistory history).documents options f).outcome =
      if PackagePath.TwoDots f.item.package then .error (.packageNotFound f.item.package)
      else documentsBy (fun m => ((Context.mk (ofHistory history)
        (PackagePath.ofText f.item.package) options).schemaOf m).outcome) f.messages := by
  rw [outcome_documents, if_neg hm, ← hp, package?_ofHistory_of_mem he]
  by_cases hd : PackagePath.TwoDots e.package
  · rw [if_pos hd, if_pos hd]
  · rw [if_neg hd, if_neg hd]

theorem outcome_documents_eq_packageNotFound_iff {e : Registration} (he : e ∈ history)
    (hp : e.package = f.item.package) (hm : f.item.messages ≠ []) {package : String} :
    ((ofHistory history).documents options f).outcome = .error (.packageNotFound package) ↔
      PackagePath.TwoDots f.item.package ∧ package = f.item.package := by
  rw [outcome_documents_ofHistory he hp hm]
  split
  next hd => simp [hd, eq_comm]
  next hd =>
    refine iff_of_false ?_ fun h => hd h.1
    intro h
    obtain ⟨m, _, hs⟩ := exists_error_of_documentsBy h
    exact Context.outcome_schemaOf_ne_packageNotFound _ m package hs

theorem messages_ne_nil_of_packageNotFound {r : Registry} {package : String}
    (h : (r.documents options f).outcome = .error (.packageNotFound package)) :
    f.item.messages ≠ [] := by
  intro hm
  rw [outcome_documents, if_pos hm] at h
  cases h

theorem exists_twoDots_of_failure {job : Job} {file package : String}
    (h : job.run.value.failure? = some ⟨file, .packageNotFound package⟩) :
    ∃ f ∈ job.requested, f.item.name = file ∧ f.item.messages ≠ [] ∧ f.item.package = package ∧
      PackagePath.TwoDots package := by
  rw [Job.value_run] at h
  obtain ⟨done, left, _, hfiles, _, _, hstop⟩ :=
    Job.documents_split (.ofHistory job.history) job.options job.requested
  rcases hstop with ⟨-, hnone⟩ | ⟨f, later, e, rfl, he, hfailure⟩
  · rw [hnone] at h
    cases h
  · rw [hfailure] at h
    obtain ⟨rfl, rfl⟩ := JobFailure.mk.inj (Option.some.inj h)
    have hf : f ∈ job.requested := by
      rw [hfiles]
      exact List.mem_append_right _ List.mem_cons_self
    have hm := messages_ne_nil_of_packageNotFound he
    obtain ⟨e, hmem, hp⟩ := Job.exists_registration (List.mem_filter.mp hf).1 hm
    obtain ⟨hd, rfl⟩ := (outcome_documents_eq_packageNotFound_iff hmem hp hm).mp he
    exact ⟨f, hf, rfl, hm, rfl, hd⟩

/-- A registration and the lookup of a package agree on where a package text leads, unless the text
begins with two dots, which leads nowhere; so a file whose messages are registered fails for want
of its package only with such a text, and otherwise converts its messages in the package that holds
them. -/
theorem package?_register_agrees :
    (∀ (history : History) (text : String) (m : Located Message),
      let r := ((ofHistory history).register text m).value
      (∀ q name, r.type? q name =
        if q = PackagePath.ofText text ∧ m.item.name = name then some m
        else (ofHistory history).type? q name) ∧
      r.package? text =
        if PackagePath.TwoDots text then none else some (PackagePath.ofText text)) ∧
    (∀ (history : History) (options : Options) (f : Located File), f.item.messages ≠ [] →
      (∀ m ∈ f.messages, ⟨f.item.package, m⟩ ∈ history) →
      (∀ package, ((ofHistory history).documents options f).outcome =
          .error (.packageNotFound package) ↔
        PackagePath.TwoDots f.item.package ∧ package = f.item.package) ∧
      (¬ PackagePath.TwoDots f.item.package →
        ((ofHistory history).documents options f).outcome =
          documentsBy (fun m => ((Context.mk (ofHistory history)
            (PackagePath.ofText f.item.package) options).schemaOf m).outcome) f.messages ∧
        ∀ m ∈ f.messages, (∀ e ∈ history,
          PackagePath.ofText e.package = PackagePath.ofText f.item.package →
            e.message.item.name = m.item.name → e.message = m) →
          (ofHistory history).type? (PackagePath.ofText f.item.package) m.item.name = some m)) ∧
    ∀ (job : Job) (file package : String),
      job.run.value.failure? = some ⟨file, .packageNotFound package⟩ →
        ∃ f ∈ job.requested, f.item.name = file ∧ f.item.messages ≠ [] ∧
          f.item.package = package ∧ PackagePath.TwoDots package := by
  refine ⟨?_, ?_, ?_⟩
  · intro history text m
    refine ⟨fun q name => type?_insert .., ?_⟩
    rw [register_ofHistory]
    exact package?_ofHistory_of_mem (e := ⟨text, m⟩) (by simp)
  · intro history options f hm hall
    obtain ⟨first, hfirst⟩ := List.exists_mem_of_ne_nil _ (mt Located.messages_eq_nil_iff.mp hm)
    have he := hall first hfirst
    refine ⟨fun package => outcome_documents_eq_packageNotFound_iff he rfl hm, fun hd => ⟨?_, ?_⟩⟩
    · rw [outcome_documents_ofHistory he rfl hm, if_neg hd]
    · intro m hm' hu
      rw [type?_ofHistory]
      exact History.last?_eq_some (e := ⟨f.item.package, m⟩) (hall m hm') hu
  · intro job file package h
    exact exists_twoDots_of_failure h

/-- A text with two leading dots registers a message and still names no package. -/
example :
    let r := (empty.register "..a" ⟨[0], { name? := some "M" }⟩).value
    r.type? ["a"] "M" = some ⟨[0], { name? := some "M" }⟩ ∧ r.package? "..a" = none := by
  decide

end Registry

end MessageSchema
