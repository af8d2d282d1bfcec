import Mathlib.Data.List.TakeWhile
import Parkour.Language.Command

/-!
# The grammar of commands

A token is a command exactly if it consists of the parts of one, in their order: a minus, a
name, keys behind a point, modifiers in square brackets and arguments in parentheses, of which
only the name has to be there. The parts are found where they were put. Of any other token, the
longest beginning that is a command is taken, and the rest is left over.
-/

namespace Parkour.Language

/-! ## The parts of a token -/

/-- An optional part of a token between its marks. -/
def marked (mark : Char) (close : List Char) : Option (List Char) → List Char
  | none => []
  | some inner => mark :: (inner ++ close)

/-- A text is empty or starts with one of the characters. -/
def Starts (allowed text : List Char) : Prop := ∀ c ∈ text.head?, c ∈ allowed

theorem starts_marked {allowed rest : List Char} (mark : Char) (close : List Char)
    (part : Option (List Char)) (h : Starts allowed rest) :
    Starts (mark :: allowed) (marked mark close part ++ rest) := by
  cases part with
  | none => exact fun c hc => List.mem_cons_of_mem mark (h c hc)
  | some inner => simp [Starts, marked]

theorem Starts.rejects {allowed text : List Char} {p : Char → Bool} (h : Starts allowed text)
    (hp : allowed.any p = false) : ∀ c ∈ text.head?, p c = false :=
  fun c hc => by simpa using List.any_eq_false.mp hp c (h c hc)

theorem starts_arguments (arguments : Option (List Char)) :
    Starts ['('] (marked '(' [')'] arguments) := by
  cases arguments <;> simp [Starts, marked]

theorem starts_modifiers (modifiers arguments : Option (List Char)) :
    Starts ['[', '('] (marked '[' [']'] modifiers ++ marked '(' [')'] arguments) :=
  starts_marked '[' [']'] modifiers (starts_arguments arguments)

/-- The longest beginning with a property ends where the property first fails. -/
theorem takeWhile_append_of_head {p : Char → Bool} {first rest : List Char}
    (hfirst : ∀ c ∈ first, p c = true) (hrest : ∀ c ∈ rest.head?, p c = false) :
    (first ++ rest).takeWhile p = first ∧ (first ++ rest).dropWhile p = rest := by
  rw [List.takeWhile_append_of_pos hfirst, List.dropWhile_append_of_pos hfirst]
  cases rest with
  | nil => simp
  | cons c rest => simp [hrest c rfl]

namespace Command

theorem signPart_print (reverse : Bool) {name : String}
    (hname : Text.isIdentifier name = true) (rest : List Char) :
    signPart ((if reverse then ['-'] else []) ++ (name.toList ++ rest)) =
      (reverse, name.toList ++ rest) := by
  obtain ⟨c, cs, hcs, hstart, -⟩ := Text.exists_cons_of_isIdentifier hname
  have hminus : c ≠ '-' := by
    rintro rfl
    exact absurd hstart (by decide)
  cases reverse <;> simp [signPart, hcs, hminus]

theorem namePart_identifier {name : String} (hname : Text.isIdentifier name = true)
    (rest : List Char) :
    namePart (name.toList ++ rest) =
      some (name.toList ++ rest.takeWhile Text.isNamePart, rest.dropWhile Text.isNamePart) := by
  obtain ⟨c, cs, hcs, hstart, hrest⟩ := Text.exists_cons_of_isIdentifier hname
  rw [hcs, List.cons_append, namePart, if_pos hstart, List.takeWhile_append_of_pos hrest,
    List.dropWhile_append_of_pos hrest, List.cons_append]

theorem namePart_append {name : String} (hname : Text.isIdentifier name = true)
    {rest : List Char} (hrest : ∀ c ∈ rest.head?, Text.isNamePart c = false) :
    namePart (name.toList ++ rest) = some (name.toList, rest) := by
  obtain ⟨htake, hdrop⟩ := takeWhile_append_of_head (List.forall_mem_nil _) hrest
  rw [List.nil_append] at htake hdrop
  rw [namePart_identifier hname, htake, hdrop, List.append_nil]

theorem namePart_print {name : String} (hname : Text.isIdentifier name = true)
    {rest : List Char} (hrest : Starts ['.', '[', '('] rest) :
    namePart (name.toList ++ rest) = some (name.toList, rest) :=
  namePart_append hname (hrest.rejects rfl)

theorem keysPart_print {keys : Option (List Char)}
    (hkeys : ∀ text ∈ keys, ∀ c ∈ text, Text.isAlphanumeric c = true) {rest : List Char}
    (hrest : Starts ['[', '('] rest) :
    keysPart (marked '.' [] keys ++ rest) = (keys, rest) := by
  cases keys with
  | none =>
      cases rest with
      | nil => rfl
      | cons c rest =>
          have hc : c ≠ '.' := by
            rintro rfl
            exact absurd (hrest '.' rfl) (by decide)
          simp [marked, keysPart, hc]
  | some text =>
      obtain ⟨htake, hdrop⟩ := takeWhile_append_of_head (hkeys text rfl)
        (hrest.rejects rfl)
      rw [marked, List.append_nil, List.cons_append, keysPart, if_pos rfl, htake, hdrop]

theorem modifiersPart_print {modifiers : Option (List Char)}
    (hmodifiers : ∀ text ∈ modifiers, ∀ c ∈ text, isInner c = true) {rest : List Char}
    (hrest : modifiers = none → Starts ['('] rest) :
    modifiersPart (marked '[' [']'] modifiers ++ rest) = (modifiers, rest) := by
  cases modifiers with
  | none =>
      cases rest with
      | nil => rfl
      | cons c rest =>
          have hc : c ≠ '[' := by
            rintro rfl
            exact absurd (hrest rfl '[' rfl) (by decide)
          simp [marked, modifiersPart, hc]
  | some text =>
      have hclose : ∀ c ∈ (']' :: rest).head?, isInner c = false := by simp [isInner]
      obtain ⟨htake, hdrop⟩ := takeWhile_append_of_head (hmodifiers text rfl) hclose
      rw [marked, List.cons_append, List.append_assoc, List.singleton_append, modifiersPart,
        if_pos rfl, htake, hdrop]
      rfl

theorem argumentsPart_print (arguments : Option (List Char)) :
    argumentsPart (marked '(' [')'] arguments) = (arguments, []) := by
  cases arguments with
  | none => rfl
  | some inner => simp [marked, argumentsPart, beforeLastClose]

/-! ## Parts that are found stand in the token -/

section Found

variable {cs rest : List Char}

theorem eq_append_of_signPart {reverse : Bool} (h : signPart cs = (reverse, rest)) :
    cs = (if reverse then ['-'] else []) ++ rest := by
  cases cs with
  | nil =>
      obtain ⟨rfl, rfl⟩ := Prod.mk.inj h
      simp
  | cons c cs =>
      by_cases hc : c = '-'
      · simp only [signPart, hc, if_true, Prod.mk.injEq] at h
        simp [← h.1, ← h.2, hc]
      · simp only [signPart, hc, if_false, Prod.mk.injEq] at h
        simp [← h.1, ← h.2]

theorem eq_append_of_namePart {name : List Char} (h : namePart cs = some (name, rest)) :
    cs = name ++ rest ∧ Text.isIdentifier (String.ofList name) = true := by
  cases cs with
  | nil => cases h
  | cons c cs =>
      simp only [namePart, Option.ite_none_right_eq_some, Option.some.injEq, Prod.mk.injEq] at h
      obtain ⟨hstart, rfl, rfl⟩ := h
      exact ⟨by simp, Text.isIdentifier_ofList hstart fun d hd => List.mem_takeWhile_imp hd⟩

theorem eq_append_of_keysPart {keys : Option (List Char)} (h : keysPart cs = (keys, rest)) :
    cs = marked '.' [] keys ++ rest ∧
      ∀ text ∈ keys, ∀ c ∈ text, Text.isAlphanumeric c = true := by
  cases cs with
  | nil =>
      obtain ⟨rfl, rfl⟩ := Prod.mk.inj h
      simp [marked]
  | cons c cs =>
      by_cases hc : c = '.'
      · simp only [keysPart, hc, if_true, Prod.mk.injEq] at h
        obtain ⟨rfl, rfl⟩ := h
        constructor
        · simp [marked, hc]
        · intro text htext d hd
          cases htext
          exact List.mem_takeWhile_imp hd
      · simp only [keysPart, hc, if_false, Prod.mk.injEq] at h
        obtain ⟨rfl, rfl⟩ := h
        simp [marked]

/-- Modifiers are found between two brackets, or nothing is read. -/
theorem eq_append_of_modifiersPart {modifiers : Option (List Char)}
    (h : modifiersPart cs = (modifiers, rest)) :
    cs = marked '[' [']'] modifiers ++ rest ∧
      ∀ text ∈ modifiers, ∀ c ∈ text, isInner c = true := by
  unfold modifiersPart at h
  split at h
  · obtain ⟨rfl, rfl⟩ := Prod.mk.inj h
    simp [marked]
  · next c cs =>
    split at h
    · next hc =>
      split at h
      · obtain ⟨rfl, rfl⟩ := Prod.mk.inj h
        simp [marked]
      · next d behind hdrop =>
        split at h
        · next hd =>
          obtain ⟨rfl, rfl⟩ := Prod.mk.inj h
          have hsplit : cs.takeWhile isInner ++ d :: behind = cs := by
            rw [← hdrop, List.takeWhile_append_dropWhile]
          constructor
          · simp only [marked, hc, ← hd, List.cons_append, List.append_assoc, List.nil_append,
              hsplit]
          · intro text htext e he
            cases htext
            exact List.mem_takeWhile_imp he
        · obtain ⟨rfl, rfl⟩ := Prod.mk.inj h
          simp [marked]
    · obtain ⟨rfl, rfl⟩ := Prod.mk.inj h
      simp [marked]

theorem eq_append_of_beforeLastClose {inner : List Char}
    (h : beforeLastClose cs = some (inner, rest)) : cs = inner ++ ')' :: rest := by
  unfold beforeLastClose at h
  cases hdrop : cs.reverse.dropWhile (· != ')') with
  | nil => simp [hdrop] at h
  | cons d others =>
      have hd : d = ')' := by
        have hhead := List.head?_dropWhile_not (· != ')') cs.reverse
        simpa [hdrop] using hhead
      simp only [hdrop, Option.some.injEq, Prod.mk.injEq] at h
      obtain ⟨rfl, rfl⟩ := h
      have hsplit := List.takeWhile_append_dropWhile (p := (· != ')')) (l := cs.reverse)
      rw [hdrop, hd] at hsplit
      calc
        cs = cs.reverse.reverse := cs.reverse_reverse.symm
        _ = (cs.reverse.takeWhile (· != ')') ++ ')' :: others).reverse := by rw [hsplit]
        _ = others.reverse ++ ')' :: (cs.reverse.takeWhile (· != ')')).reverse := by simp

/-- Arguments are found between two parentheses, or nothing is read. -/
theorem eq_append_of_argumentsPart {arguments : Option (List Char)}
    (h : argumentsPart cs = (arguments, rest)) : cs = marked '(' [')'] arguments ++ rest := by
  unfold argumentsPart at h
  split at h
  · obtain ⟨rfl, rfl⟩ := Prod.mk.inj h
    simp [marked]
  · next c cs =>
    split at h
    · next hc =>
      split at h
      · next inner behind hclose =>
        obtain ⟨rfl, rfl⟩ := Prod.mk.inj h
        simp [marked, hc, eq_append_of_beforeLastClose hclose]
      · obtain ⟨rfl, rfl⟩ := Prod.mk.inj h
        simp [marked]
    · obtain ⟨rfl, rfl⟩ := Prod.mk.inj h
      simp [marked]

end Found

/-! ## Commands and their tokens -/

/-- The token of a command up to its arguments. -/
def front (command : Command) : String :=
  (if command.reverse then "-" else "") ++ command.name ++
    command.keys.elim "" (fun keys => "." ++ keys) ++
    command.modifiers.elim "" (fun text => "[" ++ text ++ "]")

/-- The token of a command. -/
def print (command : Command) : String :=
  command.front ++ command.arguments.elim "" (fun text => "(" ++ text ++ ")")

/-- The count of characters before the arguments, the parenthesis with them, or zero without
arguments. -/
def offset (command : Command) : Nat :=
  command.arguments.elim 0 fun _ => command.front.length + 1

/-- What the parts of a command may be. Arguments may be any text. -/
structure WellFormed (command : Command) : Prop where
  /-- The name is an identifier. -/
  name : Text.isIdentifier command.name = true
  /-- The keys are letters and digits. -/
  keys : ∀ keys ∈ command.keys, ∀ c ∈ keys.toList, Text.isAlphanumeric c = true
  /-- The modifiers have no square brackets. -/
  modifiers : ∀ text ∈ command.modifiers, ∀ c ∈ text.toList, c ≠ '[' ∧ c ≠ ']'

/-- What follows the name of a command in its token. -/
def parts (command : Command) : List Char :=
  marked '.' [] (command.keys.map String.toList) ++
    (marked '[' [']'] (command.modifiers.map String.toList) ++
      marked '(' [')'] (command.arguments.map String.toList))

theorem starts_parts (command : Command) : Starts ['.', '[', '('] command.parts :=
  starts_marked '.' [] _ (starts_modifiers _ _)

theorem toList_front (command : Command) :
    command.front.toList = (if command.reverse then ['-'] else []) ++ (command.name.toList ++
      (marked '.' [] (command.keys.map String.toList) ++
        marked '[' [']'] (command.modifiers.map String.toList))) := by
  obtain ⟨reverse, name, keys, modifiers, arguments, place⟩ := command
  cases reverse <;> cases keys <;> cases modifiers <;> simp [front, marked]

theorem toList_print (command : Command) :
    command.print.toList = (if command.reverse then ['-'] else []) ++
      (command.name.toList ++ command.parts) := by
  have harguments : (command.arguments.elim "" fun text => "(" ++ text ++ ")").toList =
      marked '(' [')'] (command.arguments.map String.toList) := by
    cases command.arguments <;> simp [marked]
  simp only [print, parts, String.toList_append, toList_front, harguments, List.append_assoc]

theorem toList_print_front (command : Command) :
    command.print.toList =
      command.front.toList ++ marked '(' [')'] (command.arguments.map String.toList) := by
  simp only [toList_print, toList_front, parts, List.append_assoc]

section

variable {command : Command} {token : String} {rest afterSign afterName afterKeys
  afterModifiers : List Char}

theorem isAlphanumeric_keys (h : command.WellFormed) :
    ∀ text ∈ command.keys.map String.toList, ∀ c ∈ text, Text.isAlphanumeric c = true := by
  intro text htext
  obtain ⟨keys, hkeys, rfl⟩ := Option.map_eq_some_iff.mp htext
  exact h.keys keys hkeys

theorem isInner_modifiers (h : command.WellFormed) :
    ∀ text ∈ command.modifiers.map String.toList, ∀ c ∈ text, isInner c = true := by
  intro text htext c hc
  obtain ⟨modifiers, hmodifiers, rfl⟩ := Option.map_eq_some_iff.mp htext
  simpa [isInner] using h.modifiers modifiers hmodifiers c hc

/-- A token whose parts are those of a command is this command, or begins with it. -/
theorem parse_of_parts (hsign : signPart token.toList = (command.reverse, afterSign))
    (hname : namePart afterSign = some (command.name.toList, afterName))
    (hkeys : keysPart afterName = (command.keys.map String.toList, afterKeys))
    (hmodifiers : modifiersPart afterKeys = (command.modifiers.map String.toList, afterModifiers))
    (harguments : argumentsPart afterModifiers = (command.arguments.map String.toList, rest))
    (stack : List String) :
    token.toList = command.print.toList ++ rest ∧
      parse stack token = if rest.isEmpty then .ok { command with argumentsAt := command.offset }
        else .error (.malformed (.leftover (String.ofList rest))
          (some ⟨token, command.print.length, stack⟩)) := by
  have hlast := eq_append_of_argumentsPart harguments
  have htoken : token.toList = command.front.toList ++ afterModifiers := by
    rw [eq_append_of_signPart hsign, (eq_append_of_namePart hname).1,
      (eq_append_of_keysPart hkeys).1, (eq_append_of_modifiersPart hmodifiers).1, toList_front]
    simp only [List.append_assoc]
  have hprint : token.toList = command.print.toList ++ rest := by
    rw [htoken, hlast, toList_print_front, List.append_assoc]
  have hplace : (if (command.arguments.map String.toList).isSome then
      token.toList.length - afterModifiers.length + 1 else 0) = command.offset := by
    rw [htoken, List.length_append, Nat.add_sub_cancel]
    cases harg : command.arguments <;> simp [offset, harg, String.length_toList]
  have hrest : token.toList.length - rest.length = command.print.length := by
    rw [hprint, List.length_append, Nat.add_sub_cancel, String.length_toList]
  have hsame : String.ofList ∘ String.toList = id := funext fun _ => String.ofList_toList
  refine ⟨hprint, ?_⟩
  simp only [parse, hsign, hname, hkeys, hmodifiers, harguments, hplace, hrest,
    String.ofList_toList, Option.map_map, hsame, Option.map_id_fun, id]

/-- A command is found in its token, part by part. -/
theorem parse_print (h : command.WellFormed) (stack : List String) :
    parse stack command.print = .ok { command with argumentsAt := command.offset } := by
  have hsign := signPart_print command.reverse h.name command.parts
  rw [← toList_print] at hsign
  obtain ⟨-, hparse⟩ := parse_of_parts hsign (namePart_print h.name (starts_parts command))
    (keysPart_print (isAlphanumeric_keys h) (starts_modifiers _ _))
    (modifiersPart_print (isInner_modifiers h) fun _ => starts_arguments _)
    (argumentsPart_print _) stack
  rw [hparse]
  rfl

/-! ## The longest command -/

/-- What the parts behind a name leave over. -/
def leftOver (afterName : List Char) : List Char :=
  (argumentsPart (modifiersPart (keysPart afterName).2).2).2

/-- A token with a name begins with a command. -/
theorem exists_print_append {name : List Char}
    (hname : namePart (signPart token.toList).2 = some (name, afterName)) (stack : List String) :
    ∃ command : Command, command.WellFormed ∧
      token.toList = command.print.toList ++ leftOver afterName ∧
      parse stack token =
        if (leftOver afterName).isEmpty then .ok { command with argumentsAt := command.offset }
        else .error (.malformed (.leftover (String.ofList (leftOver afterName)))
          (some ⟨token, command.print.length, stack⟩)) := by
  unfold leftOver
  rcases hsign : signPart token.toList with ⟨reverse, afterSign⟩
  rcases hkeys : keysPart afterName with ⟨keys, afterKeys⟩
  rcases hmodifiers : modifiersPart afterKeys with ⟨modifiers, afterModifiers⟩
  rcases harguments : argumentsPart afterModifiers with ⟨arguments, rest⟩
  rw [hsign] at hname
  have hsame : String.toList ∘ String.ofList = id := funext fun _ => String.toList_ofList
  let command : Command := {
    reverse
    name := String.ofList name
    keys := keys.map String.ofList
    modifiers := modifiers.map String.ofList
    arguments := arguments.map String.ofList
    argumentsAt := 0 }
  refine ⟨command, ?_, ?_⟩
  · constructor
    · exact (eq_append_of_namePart hname).2
    · intro text htext c hc
      obtain ⟨inner, hinner, rfl⟩ := Option.map_eq_some_iff.mp htext
      rw [String.toList_ofList] at hc
      exact (eq_append_of_keysPart hkeys).2 inner hinner c hc
    · intro text htext c hc
      obtain ⟨inner, hinner, rfl⟩ := Option.map_eq_some_iff.mp htext
      rw [String.toList_ofList] at hc
      simpa [isInner] using (eq_append_of_modifiersPart hmodifiers).2 inner hinner c hc
  · apply parse_of_parts hsign
    · simpa [command] using hname
    · simpa [command, hsame] using hkeys
    · simpa [command, hsame] using hmodifiers
    · simpa [command, hsame] using harguments

/-! A part that is there stops the parts before it. So each part that a command has is read at
its place, and nothing that it has is left over. -/

theorem length_leave_skip_le {allowed tail more : List Char} {skip leave : List Char → List Char}
    (hskip : ∀ cs, (skip cs).length ≤ cs.length) (hleave : ∀ cs, (leave cs).length ≤ cs.length)
    (hfixed : ∀ c ∈ allowed, ∀ cs, skip (c :: cs) = c :: cs) (htail : Starts allowed tail)
    (h : (leave (tail ++ more)).length ≤ more.length) :
    (leave (skip (tail ++ more))).length ≤ more.length := by
  cases tail with
  | nil => exact (hleave _).trans (hskip more)
  | cons c tail =>
      rw [List.cons_append, hfixed c (htail c rfl)]
      exact h

theorem length_keysPart_le (cs : List Char) : (keysPart cs).2.length ≤ cs.length := by
  rcases h : keysPart cs with ⟨keys, rest⟩
  exact List.IsSuffix.length_le ⟨_, (eq_append_of_keysPart h).1.symm⟩

theorem length_modifiersPart_le (cs : List Char) : (modifiersPart cs).2.length ≤ cs.length := by
  rcases h : modifiersPart cs with ⟨modifiers, rest⟩
  exact List.IsSuffix.length_le ⟨_, (eq_append_of_modifiersPart h).1.symm⟩

theorem length_argumentsPart_le (cs : List Char) : (argumentsPart cs).2.length ≤ cs.length := by
  rcases h : argumentsPart cs with ⟨arguments, rest⟩
  exact List.IsSuffix.length_le ⟨_, (eq_append_of_argumentsPart h).symm⟩

/-- The arguments reach up to the last closing parenthesis, or further than any other. -/
theorem length_argumentsPart_append_le (arguments : Option (List Char)) (more : List Char) :
    (argumentsPart (marked '(' [')'] arguments ++ more)).2.length ≤ more.length := by
  cases arguments with
  | none => exact length_argumentsPart_le more
  | some inner =>
      have hreverse : (inner ++ ')' :: more).reverse = more.reverse ++ ')' :: inner.reverse := by
        simp
      have hshort : ((more.reverse ++ ')' :: inner.reverse).takeWhile (· != ')')).length ≤
          more.length := by
        rw [List.takeWhile_append]
        split
        · simp
        · simpa using (List.takeWhile_sublist (· != ')') (l := more.reverse)).length_le
      have hfound : (more.reverse ++ ')' :: inner.reverse).dropWhile (· != ')') ≠ [] := by
        rw [List.dropWhile_append]
        split <;> simp_all
      obtain ⟨d, others, hdrop⟩ := List.exists_cons_of_ne_nil hfound
      have hclose : beforeLastClose (inner ++ ')' :: more) = some (others.reverse,
          ((more.reverse ++ ')' :: inner.reverse).takeWhile (· != ')')).reverse) := by
        simp only [beforeLastClose, hreverse, hdrop]
      simpa [marked, argumentsPart, hclose] using hshort

theorem length_modifiersPart_append_le {modifiers : Option (List Char)}
    (hmodifiers : ∀ text ∈ modifiers, ∀ c ∈ text, isInner c = true)
    (arguments : Option (List Char)) (more : List Char) :
    (argumentsPart (modifiersPart (marked '[' [']'] modifiers ++
      (marked '(' [')'] arguments ++ more))).2).2.length ≤ more.length := by
  have harguments := length_argumentsPart_append_le arguments more
  cases modifiers with
  | none =>
      refine length_leave_skip_le length_modifiersPart_le length_argumentsPart_le ?_
        (starts_arguments arguments) harguments
      intro c hc cs
      rw [List.mem_singleton.mp hc]
      rfl
  | some text =>
      rw [modifiersPart_print hmodifiers nofun]
      exact harguments

theorem length_argumentsPart_modifiersPart_le (cs : List Char) :
    (argumentsPart (modifiersPart cs).2).2.length ≤ cs.length :=
  (length_argumentsPart_le _).trans (length_modifiersPart_le cs)

theorem length_leftOver_le (cs : List Char) : (leftOver cs).length ≤ cs.length :=
  (length_argumentsPart_modifiersPart_le _).trans (length_keysPart_le cs)

theorem length_leftOver_parts_le (h : command.WellFormed) (more : List Char) :
    (leftOver (command.parts ++ more)).length ≤ more.length := by
  have hrest := length_modifiersPart_append_le (isInner_modifiers h)
    (command.arguments.map String.toList) more
  rw [← List.append_assoc] at hrest
  have hstarts := starts_modifiers (command.modifiers.map String.toList)
    (command.arguments.map String.toList)
  rw [parts, List.append_assoc]
  cases hkeys : command.keys.map String.toList with
  | none =>
      rw [marked, List.nil_append, leftOver]
      refine length_leave_skip_le length_keysPart_le length_argumentsPart_modifiersPart_le ?_
        hstarts hrest
      intro c hc cs
      simp only [List.mem_cons, List.not_mem_nil, or_false] at hc
      rcases hc with rfl | rfl <;> rfl
  | some text =>
      have htext := isAlphanumeric_keys h text hkeys
      simp only [leftOver, keysPart, marked, List.append_nil, List.cons_append, if_true,
        List.dropWhile_append_of_pos htext]
      refine length_leave_skip_le (fun cs => (List.dropWhile_sublist _).length_le)
        length_argumentsPart_modifiersPart_le ?_ hstarts hrest
      intro c hc cs
      simp only [List.mem_cons, List.not_mem_nil, or_false] at hc
      rcases hc with rfl | rfl <;> rfl

/-- A token that begins with a command has a name, and no more of it is left over than what
follows the command. -/
theorem exists_namePart (h : command.WellFormed) {more : List Char}
    (htoken : token.toList = command.print.toList ++ more) :
    ∃ name afterName, namePart (signPart token.toList).2 = some (name, afterName) ∧
      (leftOver afterName).length ≤ more.length := by
  rw [toList_print, List.append_assoc, List.append_assoc] at htoken
  rw [htoken, signPart_print command.reverse h.name]
  refine ⟨_, _, namePart_identifier h.name _, ?_⟩
  refine length_leave_skip_le (fun cs => (List.dropWhile_sublist _).length_le) length_leftOver_le
    ?_ (starts_parts command) (length_leftOver_parts_le h more)
  intro c hc cs
  simp only [List.mem_cons, List.not_mem_nil, or_false] at hc
  rcases hc with rfl | rfl | rfl <;> rfl

end

/-! ## What parsing accepts -/

/-- The longest beginning of a token that is a command, and the rest of the token. -/
structure Longest (command : Command) (token rest : String) : Prop where
  wellFormed : command.WellFormed
  whole : command.print ++ rest = token
  longest : ∀ other : Command, other.WellFormed → other.print.toList <+: token.toList →
    other.print.length ≤ command.print.length

namespace Longest

variable {command other : Command} {token rest more : String}

theorem isPrefix (h : command.Longest token rest) : command.print.toList <+: token.toList := by
  rw [← h.whole, String.toList_append]
  exact List.prefix_append _ _

theorem unique (h : command.Longest token rest) (h' : other.Longest token more) :
    command.print = other.print ∧ rest = more := by
  have hlength : command.print.toList.length = other.print.toList.length := by
    rw [String.length_toList, String.length_toList]
    exact le_antisymm (h'.longest command h.wellFormed h.isPrefix)
      (h.longest other h'.wellFormed h'.isPrefix)
  have hwhole := congrArg String.toList (h.whole.trans h'.whole.symm)
  rw [String.toList_append, String.toList_append] at hwhole
  obtain ⟨hprint, hrest⟩ := List.append_inj hwhole hlength
  exact ⟨String.toList_inj.mp hprint, String.toList_inj.mp hrest⟩

end Longest

/-- A token is a command, begins with one, or does not. -/
theorem parse_cases (stack : List String) (token : String) :
    ((∀ command : Command, command.WellFormed → ¬command.print.toList <+: token.toList) ∧
      parse stack token = .error (.malformed (.notCommand token) (some ⟨token, 0, stack⟩))) ∨
    ∃ (command : Command) (rest : String), command.Longest token rest ∧ parse stack token =
      if rest = "" then .ok { command with argumentsAt := command.offset }
      else .error (.malformed (.leftover rest) (some ⟨token, command.print.length, stack⟩)) := by
  cases hname : namePart (signPart token.toList).2 with
  | none =>
      left
      constructor
      · rintro command h ⟨more, htoken⟩
        obtain ⟨name, afterName, hsome, -⟩ := exists_namePart h htoken.symm
        rw [hname] at hsome
        cases hsome
      · simp [parse, hname]
  | some found =>
      right
      obtain ⟨name, afterName⟩ := found
      obtain ⟨command, h, htoken, hparse⟩ := exists_print_append hname stack
      refine ⟨command, String.ofList (leftOver afterName), ⟨h, ?_, ?_⟩, ?_⟩
      · apply String.toList_inj.mp
        rw [String.toList_append, String.toList_ofList, htoken]
      · rintro other hother ⟨more, hmore⟩
        obtain ⟨name', afterName', hsome, hle⟩ := exists_namePart hother hmore.symm
        cases hname.symm.trans hsome
        have hlength := congrArg List.length (hmore.trans htoken)
        simp only [List.length_append, String.length_toList] at hlength
        omega
      · rw [hparse]
        cases leftOver afterName <;> simp

theorem parse_eq_ok {stack : List String} {token : String} {command : Command} :
    parse stack token = .ok command ↔
      command.WellFormed ∧ command.print = token ∧ command.argumentsAt = command.offset := by
  constructor
  · intro h
    rcases parse_cases stack token with ⟨-, hparse⟩ | ⟨found, rest, hfound, hparse⟩
    · rw [hparse] at h
      cases h
    · rw [hparse] at h
      split at h
      · next hrest =>
        cases h
        refine ⟨⟨hfound.wellFormed.name, hfound.wellFormed.keys, hfound.wellFormed.modifiers⟩,
          ?_, rfl⟩
        have hwhole := hfound.whole
        rw [hrest, String.append_empty] at hwhole
        exact hwhole
      · cases h
  · rintro ⟨h, rfl, hplace⟩
    rw [parse_print h, ← hplace]

/-- A token is taken apart exactly if it is a command with its parts in their order and nothing
behind them. Its parts are found where they were put, and no other parts give the same token.
A token that is no command is left over from where the longest command at its beginning ends,
which the fault points to and quotes; if none stands there, the fault is at the start. -/
theorem parse_grammar (stack : List String) (token : String) :
    (∀ command, parse stack token = .ok command ↔
      command.WellFormed ∧ command.print = token ∧ command.argumentsAt = command.offset) ∧
    (∀ command : Command, command.WellFormed →
      parse stack command.print = .ok { command with argumentsAt := command.offset }) ∧
    (∀ command other : Command, command.WellFormed → other.WellFormed →
      command.print = other.print → other = { command with argumentsAt := other.argumentsAt }) ∧
    ∀ fault, parse stack token = .error fault ↔
      ((∀ command : Command, command.WellFormed → ¬command.print.toList <+: token.toList) ∧
        fault = .malformed (.notCommand token) (some ⟨token, 0, stack⟩)) ∨
      ∃ (command : Command) (rest : String), command.Longest token rest ∧ rest ≠ "" ∧
        fault = .malformed (.leftover rest) (some ⟨token, command.print.length, stack⟩) ∧
        fault.message = "unexpected '" ++ rest ++ "' after command" := by
  refine ⟨fun command => parse_eq_ok, fun command h => parse_print h stack, ?_, ?_⟩
  · intro command other h h' hprint
    have hcommand := parse_print h stack
    rw [hprint, parse_print h' stack] at hcommand
    cases command
    cases other
    simp_all
  · intro fault
    constructor
    · intro h
      rcases parse_cases stack token with ⟨hnone, hparse⟩ | ⟨command, rest, hlongest, hparse⟩
      · rw [hparse] at h
        exact .inl ⟨hnone, (Except.error.inj h).symm⟩
      · rw [hparse] at h
        split at h
        · cases h
        · next hrest =>
          cases h
          exact .inr ⟨command, rest, hlongest, hrest, rfl, rfl⟩
    · rcases parse_cases stack token with ⟨hnone, hparse⟩ | ⟨command, rest, hlongest, hparse⟩
      · rintro (⟨-, rfl⟩ | ⟨other, more, hother, -⟩)
        · exact hparse
        · exact absurd hother.isPrefix (hnone other hother.wellFormed)
      · rintro (⟨hnone, -⟩ | ⟨other, more, hother, hmore, rfl, -⟩)
        · exact absurd hlongest.isPrefix (hnone command hlongest.wellFormed)
        · obtain ⟨hprint, rfl⟩ := hlongest.unique hother
          rw [hparse, if_neg hmore, hprint]

/-- The arguments reach up to the last parenthesis, and one character more is left over. -/
theorem parse_grammar_leftover :
    parse [] "-f.w[é](a)(日)" = .ok ⟨true, "f", some "w", some "é", some "a)(日", 8⟩ ∧
      ∃ command : Command, command.Longest "-f.w[é](a)(日)x" "x" ∧ command.print.length = 13 := by
  have hparts : WellFormed ⟨true, "f", some "w", some "é", some "a)(日", 0⟩ := {
    name := rfl
    keys := by
      rintro _ ⟨⟩
      exact List.all_eq_true.mp rfl
    modifiers := by simp }
  have hfails : parse [] "-f.w[é](a)(日)x" =
      .error (.malformed (.leftover "x") (some ⟨"-f.w[é](a)(日)x", 13, []⟩)) := rfl
  refine ⟨(parse_grammar [] "").2.1 _ hparts, ?_⟩
  obtain ⟨-, hfault⟩ | ⟨command, rest, hlongest, -, hfault, -⟩ :=
    ((parse_grammar [] "-f.w[é](a)(日)x").2.2.2 _).mp hfails
  · cases hfault
  · simp only [Fault.malformed.injEq, Malformed.leftover.injEq, Option.some.injEq,
      Place.mk.injEq, true_and, and_true] at hfault
    obtain ⟨rfl, hlength⟩ := hfault
    exact ⟨command, hlongest, hlength.symm⟩

end Command

end Parkour.Language
