import AsyncLift.TypeExpr.Parser
import Mathlib.Data.List.DropRight

/-!
# The grammar of type expressions

`TypeAt s t rest` says that the text `s` begins with the type `t` and goes on with `rest`:

    type ::= ws* `void`  |  ws* name ws*  |  ws* name ws* `<` type ws* (`,` type ws*)* `>`

Names are maximal runs of name characters, so what follows one is looked at; all else is plain
concatenation. Blanks after a name may be counted to the type or to the rest. The reader always
counts them to the type, and therefore comes to a rest that differs from that of a derivation in
leading blanks only.

`parse_accepts_grammar`: a text is read as a type if and only if it is that type with blanks after
it, and the complaint about any other text carries the text.
-/

namespace AsyncLift.TypeExpr

open Text

variable {t : TypeExpr} {s rest blanks : List Char} {name : String} {args : List TypeExpr}
  {calls : Nat}

/-! ## Names and blanks -/

/-- A non-empty run of name characters other than `void`. -/
structure IsName (name : String) : Prop where
  nonempty : name ≠ ""
  chars : ∀ c ∈ name.toList, isNameChar c = true
  not_void : name ≠ "void"

theorem isName_iff :
    IsName name ↔ name ≠ "" ∧ name.toList.all isNameChar = true ∧ name ≠ "void" := by
  rw [List.all_eq_true]
  exact ⟨fun h => ⟨h.nonempty, h.chars, h.not_void⟩, fun ⟨h, h', h''⟩ => ⟨h, h', h''⟩⟩

instance : Decidable (IsName name) := decidable_of_iff' _ isName_iff

/-- Only blanks. -/
def AllBlank (s : List Char) : Prop := ∀ c ∈ s, isBlank c = true

/-- What does not go on with a name character, so that a run of them ends before it. -/
def EndsRun (s : List Char) : Prop := ∀ c ∈ s.head?, isNameChar c = false

/-- No blank is a name character. -/
theorem isNameChar_of_isBlank {c : Char} (h : isBlank c = true) : isNameChar c = false := by
  have hblanks : ∀ code ∈ Text.blanks, isNameChar (Char.ofNat code) = false := by decide +kernel
  rw [← Char.ofNat_toNat c]
  exact hblanks c.toNat (List.contains_iff_mem.mp h)

theorem skipBlanks_append (h : AllBlank blanks) (s : List Char) :
    skipBlanks (blanks ++ s) = skipBlanks s :=
  List.dropWhile_append_of_pos h

theorem skipBlanks_cons {c : Char} (h : isBlank c = false) (s : List Char) :
    skipBlanks (c :: s) = c :: s := by
  rw [skipBlanks, List.dropWhile_cons, h]
  rfl

theorem skipBlanks_before {c : Char} (hblanks : AllBlank blanks) (h : isBlank c = false)
    (s : List Char) : skipBlanks (blanks ++ c :: s) = c :: s := by
  rw [skipBlanks_append hblanks, skipBlanks_cons h]

theorem skipBlanks_idem (s : List Char) : skipBlanks (skipBlanks s) = skipBlanks s :=
  List.dropWhile_idempotent _ _

theorem skipBlanks_eq_nil : skipBlanks s = [] ↔ AllBlank s := List.dropWhile_eq_nil_iff

theorem exists_blanks (s : List Char) : ∃ blanks, AllBlank blanks ∧ s = blanks ++ skipBlanks s :=
  ⟨s.takeWhile isBlank, fun _ hc => List.mem_takeWhile_imp hc,
    List.takeWhile_append_dropWhile.symm⟩

/-- Where a run of name characters ends, the characters before it are taken off as a name. -/
theorem takeWhile_run {run : List Char} (hrun : ∀ c ∈ run, isNameChar c = true)
    (hrest : EndsRun rest) :
    (run ++ rest).takeWhile isNameChar = run ∧ (run ++ rest).dropWhile isNameChar = rest := by
  rw [List.takeWhile_append_of_pos hrun, List.dropWhile_append_of_pos hrun]
  cases rest with
  | nil => exact ⟨List.append_nil _, rfl⟩
  | cons c rest =>
    have hc : isNameChar c = false := hrest c rfl
    simp [hc]

theorem endsRun_dropWhile (s : List Char) : EndsRun (s.dropWhile isNameChar) := by
  intro c hc
  have hhead := List.head?_dropWhile_not isNameChar s
  rw [hc] at hhead
  exact hhead

/-! ## The grammar -/

mutual

/-- The text begins with the type and goes on with the rest. -/
inductive TypeAt : List Char → TypeExpr → List Char → Prop
  | void {blanks rest : List Char} (hblanks : AllBlank blanks) (hends : EndsRun rest) :
    TypeAt (blanks ++ voidName ++ rest) .void rest
  | plain {blanks more rest : List Char} {name : String} (hblanks : AllBlank blanks)
    (hname : IsName name) (hmore : AllBlank more) (hends : EndsRun (more ++ rest)) :
    TypeAt (blanks ++ name.toList ++ (more ++ rest)) (.named name []) rest
  | generic {blanks more inner rest : List Char} {name : String} {args : List TypeExpr}
    (hblanks : AllBlank blanks) (hname : IsName name) (hmore : AllBlank more)
    (hends : EndsRun (more ++ '<' :: inner)) (hargs : ArgsAt inner args rest) :
    TypeAt (blanks ++ name.toList ++ (more ++ '<' :: inner)) (.named name args) rest

/-- The text begins with types separated by commas and a closing bracket. -/
inductive ArgsAt : List Char → List TypeExpr → List Char → Prop
  | last {s blanks rest : List Char} {t : TypeExpr} (htype : TypeAt s t (blanks ++ '>' :: rest))
    (hblanks : AllBlank blanks) : ArgsAt s [t] rest
  | more {s blanks later rest : List Char} {t : TypeExpr} {args : List TypeExpr}
    (htype : TypeAt s t (blanks ++ ',' :: later)) (hblanks : AllBlank blanks)
    (hargs : ArgsAt later args rest) : ArgsAt s (t :: args) rest

end

/-- The text is the type, with blanks after it. -/
def Denotes (text : String) (t : TypeExpr) : Prop :=
  ∃ blanks, AllBlank blanks ∧ TypeAt text.toList t blanks

theorem IsName.toList_ne_nil (h : IsName name) : name.toList ≠ [] :=
  fun hnil => h.nonempty (String.toList_eq_nil_iff.mp hnil)

theorem IsName.toList_ne_voidName (h : IsName name) : name.toList ≠ voidName :=
  fun hvoid => h.not_void (String.toList_inj.mp hvoid)

theorem IsName.length_pos (h : IsName name) : 0 < name.toList.length :=
  List.length_pos_iff.mpr h.toList_ne_nil

mutual

/-- A type takes at least one character. -/
theorem TypeAt.length_lt {s rest : List Char} {t : TypeExpr} :
    TypeAt s t rest → rest.length < s.length
  | .void _ _ => by
    simp only [List.length_append, voidName, List.length_cons]
    omega
  | .plain _ hname _ _ => by
    have hpositive := hname.length_pos
    simp only [List.length_append]
    omega
  | .generic _ _ _ _ hargs => by
    have hinner := hargs.length_lt
    simp only [List.length_append, List.length_cons]
    omega

/-- Arguments take at least one character and the closing bracket. -/
theorem ArgsAt.length_lt {s rest : List Char} {args : List TypeExpr} :
    ArgsAt s args rest → rest.length + 1 < s.length
  | .last htype _ => by
    have hfirst := htype.length_lt
    simp only [List.length_append, List.length_cons] at hfirst
    omega
  | .more htype _ hargs => by
    have hfirst := htype.length_lt
    have hlater := hargs.length_lt
    simp only [List.length_append, List.length_cons] at hfirst
    omega

end

/-! ## One step of the reader -/

/-- The reader finds a run of name characters between the blanks before it and what ends it. -/
theorem split_run {run after : List Char} (hblanks : AllBlank blanks) (hnonempty : run ≠ [])
    (hrun : ∀ c ∈ run, isNameChar c = true) (hafter : EndsRun after) :
    (skipBlanks (blanks ++ run ++ after)).takeWhile isNameChar = run ∧
      (skipBlanks (blanks ++ run ++ after)).dropWhile isNameChar = after := by
  have hbody : skipBlanks (blanks ++ run ++ after) = run ++ after := by
    rw [List.append_assoc, skipBlanks_append hblanks]
    cases run with
    | nil => exact absurd rfl hnonempty
    | cons c run =>
      refine skipBlanks_cons (Bool.eq_false_iff.mpr fun hblank => ?_) _
      have hc := hrun c List.mem_cons_self
      rw [isNameChar_of_isBlank hblank] at hc
      cases hc
  rw [hbody]
  exact takeWhile_run hrun hafter

theorem read_void {after : List Char} (calls : Nat) (hblanks : AllBlank blanks)
    (hafter : EndsRun after) :
    read (calls + 1) (blanks ++ voidName ++ after) = some (.void, after) := by
  have hnonempty : voidName ≠ [] := List.cons_ne_nil _ _
  have hchars : voidName.all isNameChar = true := by decide +kernel
  obtain ⟨htake, hdrop⟩ := split_run hblanks hnonempty (List.all_eq_true.mp hchars) hafter
  rw [read]
  simp only [htake, hdrop]
  rfl

theorem read_plain {after : List Char} (calls : Nat) (hblanks : AllBlank blanks)
    (hname : IsName name) (hafter : EndsRun after) (hangle : (skipBlanks after).head? ≠ some '<') :
    read (calls + 1) (blanks ++ name.toList ++ after) =
      some (.named name [], skipBlanks after) := by
  obtain ⟨htake, hdrop⟩ := split_run hblanks hname.toList_ne_nil hname.chars hafter
  rw [read]
  simp only [htake, hdrop, if_neg hname.toList_ne_nil, if_neg hname.toList_ne_voidName,
    String.ofList_toList]
  split
  · rename_i inner hinner
    rw [hinner] at hangle
    exact absurd rfl hangle
  · rfl

theorem read_generic {after inner : List Char} (calls : Nat) (hblanks : AllBlank blanks)
    (hname : IsName name) (hafter : EndsRun after) (hangle : skipBlanks after = '<' :: inner) :
    read (calls + 1) (blanks ++ name.toList ++ after) =
      (readArgs calls inner).map fun found => (.named name found.1, found.2) := by
  obtain ⟨htake, hdrop⟩ := split_run hblanks hname.toList_ne_nil hname.chars hafter
  rw [read]
  simp only [htake, hdrop, if_neg hname.toList_ne_nil, if_neg hname.toList_ne_voidName,
    String.ofList_toList, hangle]
  cases readArgs calls inner <;> rfl

/-- A text that the reader takes a type off begins with `void` or a name. -/
theorem exists_run {found : TypeExpr × List Char} (h : read (calls + 1) s = some found) :
    ∃ blanks after, AllBlank blanks ∧ EndsRun after ∧
      (s = blanks ++ voidName ++ after ∨
        ∃ name, IsName name ∧ s = blanks ++ name.toList ++ after) := by
  obtain ⟨blanks, hblanks, hs⟩ := exists_blanks s
  refine ⟨blanks, (skipBlanks s).dropWhile isNameChar, hblanks, endsRun_dropWhile _, ?_⟩
  have hsplit : s = blanks ++ (skipBlanks s).takeWhile isNameChar ++
      (skipBlanks s).dropWhile isNameChar := by
    rw [List.append_assoc, List.takeWhile_append_dropWhile]
    exact hs
  by_cases hvoid : (skipBlanks s).takeWhile isNameChar = voidName
  · rw [hvoid] at hsplit
    exact .inl hsplit
  · refine .inr ⟨String.ofList ((skipBlanks s).takeWhile isNameChar),
      ⟨fun hempty => ?_, ?_, ?_⟩, ?_⟩
    · have hnil := String.ofList_inj.mp (hempty.trans String.ofList_nil.symm)
      rw [read] at h
      simp only [hnil, if_true] at h
      cases h
    · rw [String.toList_ofList]
      exact fun _ hc => List.mem_takeWhile_imp hc
    · exact fun hname => hvoid (String.ofList_inj.mp hname)
    · rw [String.toList_ofList]
      exact hsplit

/-! ## What is read is derived -/

/-- All that the reader makes of texts with so many nested calls is derived. -/
def ReadsSoundly (calls : Nat) : Prop :=
  (∀ s t rest, read calls s = some (t, rest) → TypeAt s t rest) ∧
    ∀ s args rest, readArgs calls s = some (args, rest) → ArgsAt s args rest

theorem ReadsSoundly.typeAt (hcalls : ReadsSoundly calls)
    (h : read (calls + 1) s = some (t, rest)) : TypeAt s t rest := by
  obtain ⟨blanks, after, hblanks, hafter, rfl | ⟨name, hname, rfl⟩⟩ := exists_run h
  · rw [read_void calls hblanks hafter] at h
    cases h
    exact .void hblanks hafter
  · obtain ⟨more, hmore, hsplit⟩ := exists_blanks after
    by_cases hangle : (skipBlanks after).head? = some '<'
    · obtain ⟨inner, hinner⟩ := List.head?_eq_some_iff.mp hangle
      rw [read_generic calls hblanks hname hafter hinner] at h
      obtain ⟨⟨args, rest⟩, hargs, hfound⟩ := Option.map_eq_some_iff.mp h
      cases hfound
      rw [hsplit, hinner] at hafter ⊢
      exact .generic hblanks hname hmore hafter (hcalls.2 _ _ _ hargs)
    · rw [read_plain calls hblanks hname hafter hangle] at h
      cases h
      have htype : TypeAt (blanks ++ name.toList ++ (more ++ skipBlanks after)) (.named name [])
          (skipBlanks after) := .plain hblanks hname hmore (hsplit ▸ hafter)
      rwa [← hsplit] at htype

theorem ReadsSoundly.argsAt (hcalls : ReadsSoundly calls)
    (h : readArgs (calls + 1) s = some (args, rest)) : ArgsAt s args rest := by
  rw [readArgs] at h
  split at h
  · cases h
  · rename_i t after hfirst
    obtain ⟨blanks, hblanks, hsplit⟩ := exists_blanks after
    have htype := hcalls.1 s t after hfirst
    rw [hsplit] at htype
    split at h
    · rename_i later hcomma
      rw [hcomma] at htype
      split at h
      · rename_i more rest' hlater
        cases h
        exact .more htype hblanks (hcalls.2 _ _ _ hlater)
      · cases h
    · rename_i rest' hclose
      rw [hclose] at htype
      cases h
      exact .last htype hblanks
    · cases h

theorem readsSoundly (calls : Nat) : ReadsSoundly calls := by
  induction calls with
  | zero => exact ⟨nofun, nofun⟩
  | succ calls ih => exact ⟨fun _ _ _ h => ih.typeAt h, fun _ _ _ h => ih.argsAt h⟩

/-! ## What is derived is read -/

/-- With so many nested calls the reader makes of all shorter texts what is derived from them. The
blanks after a type may be on either side of where it stops. -/
def ReadsCompletely (calls : Nat) : Prop :=
  (∀ s t rest, TypeAt s t rest → (skipBlanks rest).head? ≠ some '<' → s.length < calls →
    ∃ after, read calls s = some (t, after) ∧ skipBlanks after = skipBlanks rest) ∧
  ∀ s args rest, ArgsAt s args rest → s.length + 1 < calls →
    readArgs calls s = some (args, rest)

theorem ReadsCompletely.read_eq (hcalls : ReadsCompletely calls) (htype : TypeAt s t rest)
    (hangle : (skipBlanks rest).head? ≠ some '<') (hlength : s.length < calls + 1) :
    ∃ after, read (calls + 1) s = some (t, after) ∧ skipBlanks after = skipBlanks rest := by
  cases htype with
  | void hblanks hends => exact ⟨rest, read_void calls hblanks hends, rfl⟩
  | plain hblanks hname hmore hends =>
    rw [← skipBlanks_append hmore] at hangle ⊢
    exact ⟨_, read_plain calls hblanks hname hends hangle, skipBlanks_idem _⟩
  | @generic blanks more inner _ name args hblanks hname hmore hends hargs =>
    have hinner : skipBlanks (more ++ '<' :: inner) = '<' :: inner :=
      skipBlanks_before hmore (by decide) inner
    have hpositive := hname.length_pos
    simp only [List.length_append, List.length_cons] at hlength
    refine ⟨rest, ?_, rfl⟩
    rw [read_generic calls hblanks hname hends hinner, hcalls.2 inner args rest hargs (by omega)]
    rfl

theorem ReadsCompletely.readArgs_eq (hcalls : ReadsCompletely calls) (hargs : ArgsAt s args rest)
    (hlength : s.length + 1 < calls + 1) : readArgs (calls + 1) s = some (args, rest) := by
  cases hargs with
  | @last _ blanks _ t htype hblanks =>
    have hclose : skipBlanks (blanks ++ '>' :: rest) = '>' :: rest :=
      skipBlanks_before hblanks (by decide) rest
    obtain ⟨after, hfirst, hafter⟩ := hcalls.1 s t _ htype (by simp [hclose]) (by omega)
    rw [readArgs, hfirst]
    simp only [hafter, hclose]
  | @more _ blanks later _ t args htype hblanks hlater =>
    have hcomma : skipBlanks (blanks ++ ',' :: later) = ',' :: later :=
      skipBlanks_before hblanks (by decide) later
    have hshorter := htype.length_lt
    simp only [List.length_append, List.length_cons] at hshorter
    obtain ⟨after, hfirst, hafter⟩ := hcalls.1 s t _ htype (by simp [hcomma]) (by omega)
    rw [readArgs, hfirst]
    simp only [hafter, hcomma, hcalls.2 later args rest hlater (by omega)]

theorem readsCompletely (calls : Nat) : ReadsCompletely calls := by
  induction calls with
  | zero =>
    exact ⟨fun _ _ _ _ _ hlt => absurd hlt (Nat.not_lt_zero _),
      fun _ _ _ _ hlt => absurd hlt (Nat.not_lt_zero _)⟩
  | succ calls ih =>
    exact ⟨fun _ _ _ htype hangle hlt => ih.read_eq htype hangle hlt,
      fun _ _ _ hargs hlt => ih.readArgs_eq hargs hlt⟩

/-! ## Whole texts -/

theorem parse_eq_ok {text : String} : parse text = .ok t ↔ Denotes text t := by
  obtain ⟨hsound, -⟩ := readsSoundly (text.toList.length + 1)
  obtain ⟨hcomplete, -⟩ := readsCompletely (text.toList.length + 1)
  unfold parse
  constructor
  · intro h
    split at h
    · rename_i t' rest hread
      split at h
      · cases h
        exact ⟨rest, skipBlanks_eq_nil.mp ‹_›, hsound _ _ _ hread⟩
      · cases h
    · cases h
  · rintro ⟨blanks, hblanks, htype⟩
    have hnil := skipBlanks_eq_nil.mpr hblanks
    obtain ⟨rest, hread, hrest⟩ := hcomplete _ _ _ htype (by rw [hnil]; nofun) (Nat.lt_succ_self _)
    rw [hread]
    simp only [hrest, hnil, if_true]

theorem parse_eq_error {text : String} {fault : ProgramError} (h : parse text = .error fault) :
    fault = .invalidType text := by
  unfold parse at h
  split at h
  · split at h
    · cases h
    · cases h
      rfl
  · cases h
    rfl

/-- A text is read as a type if and only if the grammar derives that type from it; all other texts
are refused, each with a complaint that carries it whole. -/
theorem parse_accepts_grammar (text : String) :
    (∀ t, parse text = .ok t ↔ Denotes text t) ∧
      (parse text = .error (.invalidType text) ↔ ∀ t, ¬ Denotes text t) := by
  refine ⟨fun t => parse_eq_ok, ?_⟩
  constructor
  · intro h t ht
    rw [parse_eq_ok.mpr ht] at h
    cases h
  · intro hnone
    cases h : parse text with
    | ok t => exact absurd (parse_eq_ok.mp h) (hnone t)
    | error fault => rw [parse_eq_error h]

end AsyncLift.TypeExpr
