import MessageSchema.Proofs.Answers
import MessageSchema.Proofs.DocumentTexts
import Mathlib.Data.List.DropRight

/-! # What a parameter text asks for

White space at the two ends of a text is what `Text.trim` takes away, and nothing else
(`Text.trim_eq_iff`), and the entries of a parameter text are what it lists between commas and
white space (`Parameters.entries_eq_iff`); so white space around them and entries of white space
make no difference (`Parameters.parse_of_spaced`).  Entries are read from left to right, and two
texts with a comma between them one after the other (`Parameters.parse_append`).

Main statement: the first unknown entry rejects a text, and otherwise the last entry that admits or
forbids undeclared properties decides, for the documents of a whole response no less than for the
text (`Parameters.last_switch_decides`). -/

namespace MessageSchema

/-! ### White space -/

namespace Text

/-- All characters are white space. -/
def Blank (s : String) : Prop := ∀ c ∈ s.toList, isBlank c = true

/-- Neither the first nor the last character is white space. -/
def Bare (s : String) : Prop :=
  ∀ c, s.toList.head? = some c ∨ s.toList.getLast? = some c → isBlank c = false

theorem toList_trim (s : String) :
    (trim s).toList = (s.toList.dropWhile isBlank).rdropWhile isBlank := String.toList_ofList

/-- A text is what stands between the white space at its two ends. -/
theorem exists_eq_append_trim (s : String) :
    Bare (trim s) ∧ ∃ u v, Blank u ∧ Blank v ∧ s = u ++ trim s ++ v := by
  have hleft := List.takeWhile_append_dropWhile (p := isBlank) (l := s.toList)
  have hright := List.rdropWhile_append_rtakeWhile (p := isBlank) (l := s.toList.dropWhile isBlank)
  rw [← toList_trim] at hright
  refine ⟨?_, String.ofList (s.toList.takeWhile isBlank),
    String.ofList ((s.toList.dropWhile isBlank).rtakeWhile isBlank), ?_, ?_, ?_⟩
  · rintro c (hc | hc)
    · have hnot := List.head?_dropWhile_not isBlank s.toList
      rw [← hright, List.head?_append, hc] at hnot
      exact hnot
    · rw [toList_trim, List.rdropWhile, List.getLast?_reverse] at hc
      have hnot := List.head?_dropWhile_not isBlank (s.toList.dropWhile isBlank).reverse
      rw [hc] at hnot
      exact hnot
  · intro c hc
    rw [String.toList_ofList] at hc
    exact List.mem_takeWhile_imp hc
  · intro c hc
    rw [String.toList_ofList] at hc
    exact List.mem_rtakeWhile_imp hc
  · rw [← String.toList_inj]
    simp only [String.toList_append, String.toList_ofList]
    rw [List.append_assoc, hright, hleft]

/-- What stands between white space is found again. -/
theorem trim_append_of_bare {u t v : String} (hu : Blank u) (hv : Blank v) (ht : Bare t) :
    trim (u ++ t ++ v) = t := by
  have hdrop : (u ++ t ++ v).toList.dropWhile isBlank =
      (t.toList ++ v.toList).dropWhile isBlank := by
    rw [String.toList_append, String.toList_append, List.append_assoc,
      List.dropWhile_append_of_pos hu]
  rw [← String.toList_inj, toList_trim, hdrop]
  cases hchars : t.toList with
  | nil =>
      rw [List.nil_append, List.dropWhile_eq_nil_iff.mpr hv]
      rfl
  | cons c rest =>
      have hfirst : ¬ isBlank c = true := by
        rw [ht c (.inl (by rw [hchars]; rfl))]
        exact Bool.false_ne_true
      have hlast : (c :: rest).rdropWhile isBlank = c :: rest := by
        refine List.rdropWhile_eq_self_iff.mpr fun hne => ?_
        rw [ht _ (.inr (by rw [hchars, List.getLast?_eq_some_getLast hne]))]
        exact Bool.false_ne_true
      have hv' : ∀ c ∈ v.toList.reverse, isBlank c = true :=
        fun c hc => hv c (List.mem_reverse.mp hc)
      rw [List.cons_append, List.dropWhile_cons_of_neg hfirst, ← List.cons_append, List.rdropWhile,
        List.reverse_append, List.dropWhile_append_of_pos hv']
      exact hlast

theorem trim_eq_iff {s t : String} :
    trim s = t ↔ Bare t ∧ ∃ u v, Blank u ∧ Blank v ∧ s = u ++ t ++ v := by
  constructor
  · rintro rfl
    exact exists_eq_append_trim s
  · rintro ⟨ht, u, v, hu, hv, rfl⟩
    exact trim_append_of_bare hu hv ht

theorem Blank.append {u v : String} (hu : Blank u) (hv : Blank v) : Blank (u ++ v) := by
  intro c hc
  rw [String.toList_append] at hc
  exact (List.mem_append.mp hc).elim (hu c) (hv c)

/-- White space around a text makes no difference to what is left of it. -/
theorem trim_append {u p v : String} (hu : Blank u) (hv : Blank v) :
    trim (u ++ p ++ v) = trim p := by
  obtain ⟨hbare, u', v', hu', hv', hp⟩ := exists_eq_append_trim p
  refine trim_eq_iff.mpr ⟨hbare, u ++ u', v' ++ v, hu.append hu', hv'.append hv, ?_⟩
  conv_lhs => rw [hp]
  simp only [String.append_assoc]

theorem trim_of_blank {u : String} (hu : Blank u) : trim u = "" := by
  refine trim_eq_iff.mpr ⟨?_, u, "", hu, ?_, ?_⟩
  · rintro c (hc | hc) <;> cases hc
  · intro c hc
    cases hc
  · simp

theorem trim_of_bare {t : String} (h : Bare t) : trim t = t := by
  have hblank : Blank "" := by
    intro c hc
    cases hc
  simpa using trim_append_of_bare hblank hblank h

theorem blank_of_trim_eq_empty {s : String} (h : trim s = "") : Blank s := by
  obtain ⟨-, u, v, hu, hv, hs⟩ := trim_eq_iff.mp h
  rw [hs, String.append_empty]
  exact hu.append hv

/-- The second pieces are the first ones in order with white space around them, and between them
there may be pieces of white space alone. -/
inductive Spaced : List String → List String → Prop where
  | nil : Spaced [] []
  | around {ps qs : List String} (u p v : String) (hu : Blank u) (hv : Blank v)
      (h : Spaced ps qs) : Spaced (p :: ps) ((u ++ p ++ v) :: qs)
  | between {ps qs : List String} (u : String) (hu : Blank u) (h : Spaced ps qs) :
      Spaced ps (u :: qs)

theorem Spaced.filter_map_trim {ps qs : List String} (h : Spaced ps qs) :
    (qs.map trim).filter (· ≠ "") = (ps.map trim).filter (· ≠ "") := by
  induction h with
  | nil => rfl
  | around u p v hu hv _ ih =>
      rw [List.map_cons, List.map_cons, trim_append hu hv, List.filter_cons, List.filter_cons, ih]
  | between u hu _ ih =>
      rw [List.map_cons, trim_of_blank hu, List.filter_cons_of_neg (by simp), ih]

/-- Pieces are what is left of them with white space around it. -/
theorem spaced_filter_map_trim (ps : List String) :
    Spaced ((ps.map trim).filter (· ≠ "")) ps := by
  induction ps with
  | nil => exact .nil
  | cons p rest ih =>
      rw [List.map_cons]
      by_cases hempty : trim p = ""
      · rw [List.filter_cons_of_neg (by simpa using hempty)]
        exact .between p (blank_of_trim_eq_empty hempty) ih
      · obtain ⟨-, u, v, hu, hv, hp⟩ := exists_eq_append_trim p
        rw [List.filter_cons_of_pos (by simpa using hempty)]
        nth_rewrite 2 [hp]
        exact .around u (trim p) v hu hv ih

end Text

/-! ### Words -/

namespace Parameters

/-- The words that say whether undeclared properties are admitted. -/
def switches : List String := ["allow_additional_properties", "disallow_additional_properties"]

/-- The known words. -/
def words : List String := "debug" :: switches

/-- The last entry that says whether undeclared properties are admitted. -/
def lastSwitch? (entries : List String) : Option String :=
  (entries.filter (· ∈ switches)).getLast?

/-- The text `s` lists `es`: between its commas it has `es` in order, each with white space around
it, and otherwise white space alone; and in `es` no entry is empty or begins or ends with white
space. -/
def Lists (s : String) (es : List String) : Prop :=
  (∀ entry ∈ es, entry ≠ "" ∧ Text.Bare entry) ∧
    ∃ ps, ps ≠ [] ∧ (∀ p ∈ ps, ',' ∉ p.toList) ∧ s = Text.joined ',' ps ∧ Text.Spaced es ps

/-- A text has the entries that it lists. -/
theorem entries_eq_iff {s : String} {es : List String} : entries s = es ↔ Lists s es := by
  constructor
  · rintro rfl
    refine ⟨fun entry he => ?_, Text.pieces ',' s, Text.pieces_ne_nil ',' s,
      fun p hp => Text.not_mem_of_mem_pieces hp, (Text.joined_pieces ',' s).symm,
      Text.spaced_filter_map_trim _⟩
    obtain ⟨htrim, hne⟩ := List.mem_filter.mp he
    obtain ⟨p, -, rfl⟩ := List.mem_map.mp htrim
    exact ⟨by simpa using hne, (Text.exists_eq_append_trim p).1⟩
  · rintro ⟨hes, ps, hne, hcomma, rfl, hspaced⟩
    have htrim : es.map Text.trim = es :=
      (List.map_congr_left fun entry he => Text.trim_of_bare (hes entry he).2).trans
        (List.map_id es)
    rw [entries, Text.pieces_joined hne hcomma, hspaced.filter_map_trim, htrim]
    exact List.filter_eq_self.mpr fun entry he => by simpa using (hes entry he).1

theorem ofText?_eq_none_iff {entry : String} :
    ParameterWord.ofText? entry = none ↔ entry ∉ words := by
  simp only [ParameterWord.ofText?, words, switches, List.mem_cons, List.not_mem_nil, or_false]
  grind

theorem read_append (p : Parameters) (before after : List String) :
    p.read (before ++ after) = p.read before >>= fun q => q.read after := by
  induction before generalizing p with
  | nil => rfl
  | cons entry rest ih =>
      rw [List.cons_append, read, read]
      cases ParameterWord.ofText? entry with
      | none => rfl
      | some word => exact ih _

/-- The first unknown entry is reported. -/
theorem read_eq_error_iff {p : Parameters} {entries : List String} {e : ParameterError} :
    p.read entries = .error e ↔ entries.find? (· ∉ words) = some e.entry := by
  induction entries generalizing p with
  | nil => simp [read]
  | cons entry rest ih =>
      rw [read]
      cases hword : ParameterWord.ofText? entry with
      | none =>
          rw [List.find?_cons_of_pos (by simpa using ofText?_eq_none_iff.mp hword)]
          obtain ⟨unknown⟩ := e
          simp
      | some word =>
          have hmem : entry ∈ words := by
            by_contra hmem
            rw [ofText?_eq_none_iff.mpr hmem] at hword
            cases hword
          rw [List.find?_cons_of_neg (by simpa using hmem)]
          exact ih

theorem lastSwitch?_cons (entry : String) (rest : List String) :
    lastSwitch? (entry :: rest) =
      if entry ∈ switches then some ((lastSwitch? rest).getD entry) else lastSwitch? rest := by
  rw [lastSwitch?, List.filter_cons]
  by_cases h : entry ∈ switches
  · rw [if_pos (decide_eq_true h), if_pos h, List.getLast?_cons]
    rfl
  · rw [if_neg (by simpa using h), if_neg h]
    rfl

/-- What is admitted after the entries, if it was `allow` before them. -/
def allowedAfter (allow : Bool) (entries : List String) : Bool :=
  match lastSwitch? entries with
  | none => allow
  | some entry => entry ≠ "disallow_additional_properties"

/-- Without unknown entries, the last switch decides, and `debug` counts wherever it stands. -/
theorem read_of_known {entries : List String} (h : ∀ entry ∈ entries, entry ∈ words)
    (p : Parameters) :
    p.read entries = .ok ⟨⟨allowedAfter p.options.allowAdditionalProperties entries⟩,
      p.debug || decide ("debug" ∈ entries)⟩ := by
  induction entries generalizing p with
  | nil => simp [read, allowedAfter, lastSwitch?]
  | cons entry rest ih =>
      have hrest := ih fun e he => h e (List.mem_cons_of_mem _ he)
      have hentry := h entry List.mem_cons_self
      simp only [words, switches, List.mem_cons, List.not_mem_nil, or_false] at hentry
      rcases hentry with rfl | rfl | rfl
      · show (p.apply .debug).read rest = _
        rw [hrest, apply]
        simp [allowedAfter, lastSwitch?_cons, switches]
      · show (p.apply .allowAdditionalProperties).read rest = _
        rw [hrest, apply]
        cases hlast : lastSwitch? rest <;> simp [allowedAfter, lastSwitch?_cons, switches, hlast]
      · show (p.apply .disallowAdditionalProperties).read rest = _
        rw [hrest, apply]
        cases hlast : lastSwitch? rest <;> simp [allowedAfter, lastSwitch?_cons, switches, hlast]

theorem allowedAfter_true_eq_false_iff {entries : List String} :
    allowedAfter true entries = false ↔
      lastSwitch? entries = some "disallow_additional_properties" := by
  rw [allowedAfter]
  cases lastSwitch? entries <;> simp

theorem parse_eq_ok_iff {s : String} {p : Parameters} :
    parse s = .ok p ↔ (∀ entry ∈ entries s, entry ∈ words) ∧
      (p.debug = true ↔ "debug" ∈ entries s) ∧
      (p.options.allowAdditionalProperties = false ↔
        lastSwitch? (entries s) = some "disallow_additional_properties") := by
  by_cases h : ∀ entry ∈ entries s, entry ∈ words
  · rw [parse, read_of_known h, ← allowedAfter_true_eq_false_iff, and_iff_right h]
    obtain ⟨⟨allow⟩, debug⟩ := p
    simp only [Except.ok.injEq, mk.injEq, Options.mk.injEq, Bool.false_or]
    cases allow <;> cases debug <;> simp [and_comm]
  · refine iff_of_false ?_ fun hall => h hall.1
    intro hp
    cases hfind : (entries s).find? (· ∉ words) with
    | none => exact h fun entry he => by simpa using List.find?_eq_none.mp hfind entry he
    | some entry =>
        rw [parse, read_eq_error_iff.mpr hfind] at hp
        cases hp

theorem entries_append (s t : String) : entries (s ++ "," ++ t) = entries s ++ entries t := by
  have hpieces : Text.pieces ',' (s ++ "," ++ t) = Text.pieces ',' s ++ Text.pieces ',' t :=
    Text.pieces_append ',' s t
  rw [entries, hpieces, List.map_append, List.filter_append]
  rfl

theorem parse_append (s t : String) :
    parse (s ++ "," ++ t) = parse s >>= fun p => p.read (entries t) := by
  rw [parse, entries_append, read_append]
  rfl

theorem parse_of_spaced {s t : String}
    (h : Text.Spaced (Text.pieces ',' s) (Text.pieces ',' t)) : parse t = parse s := by
  rw [parse, parse, entries, h.filter_map_trim]
  rfl

end Parameters

/-! ### The roots of the documents -/

/-- The content is the text of an object that has the key `additionalProperties` once, with the
value `allow`. -/
def Document.RootAdmits (d : Document) (allow : Bool) : Prop :=
  ∃ entries, (∀ t, JsonText.IsText d.content.toList t ↔ t = (Json.object entries).tree) ∧
    (Entries.names entries).Nodup ∧ ("additionalProperties", Json.bool allow) ∈ entries

theorem Document.rootAdmits_ofSchema {s : Schema} {allow : Bool} (name : String)
    (h : s.additionalProperties? = some allow) : (ofSchema name s).RootAdmits allow := by
  refine ⟨("$schema", .text Schema.dialect) :: s.entries, ?_, ?_, ?_⟩
  · exact Json.isText_toText_iff Json.Layout.blank_pretty s.documentJson
  · exact List.nodup_cons.mpr ⟨s.dialect_not_mem_names, s.nodup_names_entries⟩
  · have hvalue : s.value? .additionalProperties = some (.bool allow) := by
      rw [Schema.value?, h]
      rfl
    exact List.mem_cons_of_mem _ (Schema.mem_entries_iff.mpr ⟨_, _, hvalue, rfl⟩)

theorem Context.additionalProperties?_of_schemaOf {ctx : Context} {m : Located Message} {s : Schema}
    (hs : (ctx.schemaOf m).outcome = .ok s) :
    s.additionalProperties? = some ctx.options.allowAdditionalProperties := by
  obtain ⟨ps, -, rfl⟩ := outcome_expand_eq_ok_iff.mp hs
  rfl

/-- The documents of a file without messages are those of its enums; otherwise there is one for each
message, and all their roots say what the options say. -/
theorem Registry.rootAdmits_documents {r : Registry} {options : Options} {f : Located File}
    {block : List Document} (h : (r.documents options f).outcome = .ok block) :
    if f.item.messages = [] then block = f.item.enums.map fun e => .ofSchema e.name e.toSchema
    else List.Forall₂ (fun m d => d.name = Document.nameFor m.item.name ∧
      d.RootAdmits options.allowAdditionalProperties) f.messages block := by
  rw [outcome_documents] at h
  by_cases hm : f.item.messages = []
  · rw [if_pos hm] at h ⊢
    exact (Except.ok.inj h).symm
  · rw [if_neg hm] at h ⊢
    cases hp : r.package? f.item.package with
    | none =>
        rw [hp] at h
        cases h
    | some package =>
        rw [hp] at h
        refine (forall₂_of_documentsBy h).imp ?_
        rintro m d ⟨s, hs, rfl⟩
        exact ⟨rfl, Document.rootAdmits_ofSchema _ (Context.additionalProperties?_of_schemaOf hs)⟩

namespace Parameters

/-- The entries of a parameter text are those that it lists, and it fails with the first of them
that is no known word.  Otherwise `debug` counts wherever it stands, and of the words that admit or
forbid undeclared properties the last one counts.  So a text is read from left to right, and neither
white space around entries nor entries of white space make a difference.  In the response to a
request that is accepted, the root of every document of a message forbids undeclared properties if
and only if the command line or the last of these words does. -/
theorem last_switch_decides :
    (∀ s es, entries s = es ↔ Lists s es) ∧
    (∀ s e, parse s = .error e ↔ (entries s).find? (· ∉ words) = some e.entry) ∧
    (∀ s p, parse s = .ok p ↔ (∀ entry ∈ entries s, entry ∈ words) ∧
      (p.debug = true ↔ "debug" ∈ entries s) ∧
      (p.options.allowAdditionalProperties = false ↔
        lastSwitch? (entries s) = some "disallow_additional_properties")) ∧
    (∀ s t, parse (s ++ "," ++ t) = parse s >>= fun p => p.read (entries t)) ∧
    (∀ s t, Text.Spaced (Text.pieces ',' s) (Text.pieces ',' t) → parse t = parse s) ∧
    ∀ (settings : Settings) (input : List UInt8) (r : Request) (p : Parameters),
      Request.decode input = .ok r → parse r.parameter = .ok p →
        ∃ allow, (allow = false ↔ settings.disallow = true ∨
            lastSwitch? (entries r.parameter) = some "disallow_additional_properties") ∧
          ∃ done left blocks,
            (Located.enumerate [] 0 r.files).filter (fun f => f.item.name ∈ r.targets) =
              done ++ left ∧
            (settings.response input).files = blocks.flatten.map ResponseFile.ofDocument ∧
            List.Forall₂ (fun f block =>
              if f.item.messages = [] then
                block = f.item.enums.map fun e => .ofSchema e.name e.toSchema
              else List.Forall₂ (fun m d => d.name = Document.nameFor m.item.name ∧
                d.RootAdmits allow) f.messages block) done blocks := by
  refine ⟨fun s es => entries_eq_iff, fun s e => read_eq_error_iff, fun s p => parse_eq_ok_iff,
    parse_append, fun s t => parse_of_spaced, ?_⟩
  intro settings input r p hr hp
  let job := Job.ofFiles r.files r.targets
    ⟨!settings.disallow && p.options.allowAdditionalProperties⟩
  obtain ⟨done, left, blocks, hrequested, hblocks, hdocs, -⟩ :=
    Job.documents_split job.registry.value job.options job.requested
  refine ⟨!settings.disallow && p.options.allowAdditionalProperties, ?_, done, left, blocks,
    hrequested, ?_, hblocks.imp fun f block h => Registry.rootAdmits_documents h⟩
  · rw [← (parse_eq_ok_iff.mp hp).2.2]
    cases settings.disallow <;> simp
  · rw [Settings.response_of_parameters hr hp, ← hdocs, ← Job.value_run_requested]
    rfl

/-- White space of any kind and empty entries do not count, and the last switch does. -/
example : parse " debug ,,	allow_additional_properties, disallow_additional_properties " =
    .ok ⟨⟨false⟩, true⟩ := rfl

end Parameters
end MessageSchema
