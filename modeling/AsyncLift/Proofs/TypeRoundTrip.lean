import AsyncLift.Proofs.TypeGrammar

/-!
# Types that are read back as written

The written form of a type is derived by the grammar if all names in the type are names
(`typeAt_render`), and whatever the grammar derives has only such names (`TypeAt.wellNamed`). So
these are exactly the types that can be written and read back; a type that was read is one of them,
and so is its completion if the completion type has a name.
-/

namespace AsyncLift.TypeExpr

variable {t : TypeExpr} {s rest blanks : List Char}

/-! ## The names in a type -/

mutual

/-- The names in a type, its own first. -/
def names : TypeExpr → List String
  | void => []
  | named name args => name :: namesOfList args

def namesOfList : List TypeExpr → List String
  | [] => []
  | arg :: args => arg.names ++ namesOfList args

end

/-- Every named part of the type has a name that can be read. -/
def WellNamed (t : TypeExpr) : Prop := ∀ name ∈ t.names, IsName name

def AllWellNamed (args : List TypeExpr) : Prop := ∀ name ∈ namesOfList args, IsName name

instance : Decidable t.WellNamed := inferInstanceAs (Decidable (∀ name ∈ t.names, IsName name))

theorem wellNamed_void : void.WellNamed := nofun

theorem wellNamed_named {name : String} {args : List TypeExpr} :
    (named name args).WellNamed ↔ IsName name ∧ AllWellNamed args := by
  rw [WellNamed, names]
  exact List.forall_mem_cons

theorem allWellNamed_nil : AllWellNamed [] := nofun

theorem allWellNamed_cons {arg : TypeExpr} {args : List TypeExpr} :
    AllWellNamed (arg :: args) ↔ arg.WellNamed ∧ AllWellNamed args := by
  rw [AllWellNamed, namesOfList]
  exact List.forall_mem_append

/-! ## What is derived has names -/

mutual

theorem TypeAt.wellNamed {s rest : List Char} {t : TypeExpr} : TypeAt s t rest → t.WellNamed
  | .void _ _ => wellNamed_void
  | .plain _ hname _ _ => wellNamed_named.mpr ⟨hname, allWellNamed_nil⟩
  | .generic _ hname _ _ hargs => wellNamed_named.mpr ⟨hname, hargs.allWellNamed⟩

theorem ArgsAt.allWellNamed {s rest : List Char} {args : List TypeExpr} :
    ArgsAt s args rest → AllWellNamed args
  | .last htype _ => allWellNamed_cons.mpr ⟨htype.wellNamed, allWellNamed_nil⟩
  | .more htype _ hargs => allWellNamed_cons.mpr ⟨htype.wellNamed, hargs.allWellNamed⟩

end

theorem wellNamed_of_parse {text : String} (h : parse text = .ok t) : t.WellNamed := by
  obtain ⟨blanks, -, htype⟩ := parse_eq_ok.mp h
  exact htype.wellNamed

/-! ## What has names is derived from its written form -/

theorem TypeAt.after_blanks (hblanks : AllBlank blanks) (h : TypeAt s t rest) :
    TypeAt (blanks ++ s) t rest := by
  have hjoin : ∀ before run after : List Char,
      blanks ++ (before ++ run ++ after) = blanks ++ before ++ run ++ after := by simp
  cases h with
  | void hbefore hends =>
    rw [hjoin]
    exact .void (List.forall_mem_append.mpr ⟨hblanks, hbefore⟩) hends
  | plain hbefore hname hmore hends =>
    rw [hjoin]
    exact .plain (List.forall_mem_append.mpr ⟨hblanks, hbefore⟩) hname hmore hends
  | generic hbefore hname hmore hends hargs =>
    rw [hjoin]
    exact .generic (List.forall_mem_append.mpr ⟨hblanks, hbefore⟩) hname hmore hends hargs

theorem ArgsAt.after_blanks {args : List TypeExpr} (hblanks : AllBlank blanks)
    (h : ArgsAt s args rest) : ArgsAt (blanks ++ s) args rest := by
  cases h with
  | last htype hbefore => exact .last (htype.after_blanks hblanks) hbefore
  | more htype hbefore hargs => exact .more (htype.after_blanks hblanks) hbefore hargs

theorem allBlank_nil : AllBlank [] := nofun

theorem endsRun_cons {c : Char} (h : isNameChar c = false) (s : List Char) : EndsRun (c :: s) := by
  rintro _ ⟨⟩
  exact h

mutual

theorem typeAt_render : (t : TypeExpr) → t.WellNamed → ∀ rest, EndsRun rest →
    TypeAt (t.render.toList ++ rest) t rest
  | void, _, rest, hrest => by
    rw [render]
    exact .void allBlank_nil hrest
  | named name [], h, rest, hrest => by
    rw [render]
    exact .plain allBlank_nil (wellNamed_named.mp h).1 allBlank_nil hrest
  | named name (arg :: args), h, rest, _ => by
    obtain ⟨hname, hargs⟩ := wellNamed_named.mp h
    obtain ⟨hfirst, hlater⟩ := allWellNamed_cons.mp hargs
    have hangle : isNameChar '<' = false := by decide
    have hwritten : (named name (arg :: args)).render.toList ++ rest = [] ++ name.toList ++
        ([] ++ '<' :: (arg.render.toList ++ (renderMore args).toList ++ rest)) := by
      simp [render]
    rw [hwritten]
    exact .generic allBlank_nil hname allBlank_nil (endsRun_cons hangle _)
      (argsAt_renderMore args hlater (typeAt_render arg hfirst) rest)

/-- What is written after the first argument. Each argument there has a comma and a blank before
it. -/
theorem argsAt_renderMore : (args : List TypeExpr) → AllWellNamed args →
    ∀ {s : List Char} {t : TypeExpr}, (∀ rest, EndsRun rest → TypeAt (s ++ rest) t rest) →
      ∀ rest, ArgsAt (s ++ (renderMore args).toList ++ rest) (t :: args) rest
  | [], _, s, t, hfirst, rest => by
    have hclose : isNameChar '>' = false := by decide
    have hwritten : s ++ (renderMore []).toList ++ rest = s ++ ('>' :: rest) := by
      simp [renderMore]
    rw [hwritten]
    exact .last (hfirst _ (endsRun_cons hclose rest)) allBlank_nil
  | next :: args, hargs, s, t, hfirst, rest => by
    obtain ⟨hnext, hlater⟩ := allWellNamed_cons.mp hargs
    have hcomma : isNameChar ',' = false := by decide
    have hblank : AllBlank [' '] := List.forall_mem_singleton.mpr (by decide)
    have hrest := argsAt_renderMore args hlater (typeAt_render next hnext) rest
    have hwritten : s ++ (renderMore (next :: args)).toList ++ rest =
        s ++ (',' :: ([' '] ++ (next.render.toList ++ (renderMore args).toList ++ rest))) := by
      simp [renderMore]
    rw [hwritten]
    exact .more (hfirst _ (endsRun_cons hcomma _)) allBlank_nil (hrest.after_blanks hblank)

end

theorem parse_render (h : t.WellNamed) : parse t.render = .ok t := by
  have htype := typeAt_render t h [] nofun
  rw [List.append_nil] at htype
  exact parse_eq_ok.mpr ⟨[], allBlank_nil, htype⟩

theorem WellNamed.completion {task : String} (h : t.WellNamed) (htask : IsName task) :
    (t.completion task).WellNamed := by
  unfold TypeExpr.completion
  split
  · exact h
  · cases t with
    | void => exact wellNamed_named.mpr ⟨htask, allWellNamed_nil⟩
    | named name args =>
      exact wellNamed_named.mpr ⟨htask, allWellNamed_cons.mpr ⟨h, allWellNamed_nil⟩⟩

/-- A type is read back from its written form if and only if all its names can be read. A type that
was read is read back, and if a type is, then so is its completion by a task with such a name. -/
theorem parse_render_exactly (t : TypeExpr) :
    (parse t.render = .ok t ↔ t.WellNamed) ∧
      (∀ text, parse text = .ok t → parse t.render = .ok t) ∧
      ∀ task, IsName task → parse t.render = .ok t →
        parse (t.completion task).render = .ok (t.completion task) := by
  refine ⟨⟨wellNamed_of_parse, parse_render⟩, fun text h => ?_, fun task htask h => ?_⟩
  · exact parse_render (wellNamed_of_parse h)
  · exact parse_render ((wellNamed_of_parse h).completion htask)

/-- A type with an argument that has a name beyond ASCII and one that is `void`. -/
def mixedArguments : TypeExpr :=
  .named "Dictionary" [.named "Größe?[]" [], .named "System.Lazy_1" [.void]]

theorem parse_render_exactly_mixedArguments :
    parse mixedArguments.render = .ok mixedArguments ∧
      IsName "Task" ∧
      parse (mixedArguments.completion "Task").render = .ok (mixedArguments.completion "Task") ∧
      parse (named "List" [named "void" []]).render ≠ .ok (named "List" [named "void" []]) := by
  obtain ⟨hnames, -, hcompletion⟩ := parse_render_exactly mixedArguments
  obtain ⟨hvoid, -⟩ := parse_render_exactly (named "List" [named "void" []])
  have htask : IsName "Task" := by decide +kernel
  have hread : parse mixedArguments.render = .ok mixedArguments :=
    hnames.mpr (by decide +kernel)
  refine ⟨hread, htask, hcompletion "Task" htask hread, fun h => ?_⟩
  exact absurd (hvoid.mp h) (by decide +kernel)

end AsyncLift.TypeExpr
