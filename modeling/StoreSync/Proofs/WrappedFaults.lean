import StoreSync.Command
import StoreSync.Ledger

/-!
How a fault is classified once it is wrapped as the fault of a command. Whether it is a
cancellation is decided by its cause. Whether it is a shortage of file descriptors is decided by
the text of the command as well, since the words are looked for in the whole message, and by the
error number only one level deep.
-/
namespace StoreSync.Fault

def shortageWords : List Char := "too many open files".toList

def mentions (text : String) : Bool := holdsText shortageWords (text.toList.map Char.toLower)

/-- Whether the fault shows a shortage by its text or its own error number. This is all that is
seen of it once it is wrapped. -/
def tells (f : Fault) : Bool := mentions f.message || hasErrno tooManyFiles f

/-- Whether the fault shows a shortage by its kind or by the error number of its cause. -/
def marked : Fault → Bool
  | exhausted => true
  | exhaustedBy _ => true
  | execution _ cause => hasErrno tooManyFiles cause
  | _ => false

/-- A fault under the commands that it went through, the outermost one first. -/
def wrapped (commands : List Command) (f : Fault) : Fault :=
  commands.foldr (fun c cause => execution c.text cause) f

theorem isDescriptorShortage_eq (f : Fault) : f.isDescriptorShortage = (f.tells || f.marked) := by
  cases f with
  | exhausted => simp only [isDescriptorShortage, marked, Bool.or_true]
  | exhaustedBy cause => simp only [isDescriptorShortage, marked, Bool.or_true]
  | _ => rfl

section Words

variable {part xs ys : List Char} {c : Char} {s t : String}

theorem holdsText_iff : holdsText part xs = true ↔ part <:+: xs := by
  induction xs with
  | nil => simp [holdsText]
  | cons x xs ih =>
    rw [holdsText, Bool.or_eq_true, ih, List.isPrefixOf_iff_prefix, List.infix_cons_iff]

/-- What does not hold a separator lies on one side of it. -/
theorem infix_append_cons_iff (hc : c ∉ part) :
    part <:+: xs ++ c :: ys ↔ part <:+: xs ∨ part <:+: ys := by
  constructor
  · intro h
    rcases List.infix_append_iff_ne_nil.mp h with h | h | ⟨left, right, -, hne, rfl, -, hright⟩
    · exact .inl h
    · rcases List.infix_cons_iff.mp h with h | h
      · cases part with
        | nil => exact .inl (List.nil_infix)
        | cons p ps =>
          obtain rfl := (List.cons_prefix_cons.mp h).1
          exact absurd (List.mem_cons_self ..) hc
      · exact .inr h
    · obtain ⟨r, rest, rfl⟩ := List.exists_cons_of_ne_nil hne
      obtain rfl := (List.cons_prefix_cons.mp hright).1
      exact absurd (List.mem_append_right _ (List.mem_cons_self ..)) hc
  · rintro (h | h)
    · exact List.infix_append_of_infix_left h
    · exact List.infix_append_of_infix_right (List.infix_cons h)

theorem mentions_iff : mentions s = true ↔ shortageWords <:+: s.toList.map Char.toLower :=
  holdsText_iff

theorem mentions_of_separated (hc : c.toLower ∉ shortageWords)
    (ht : t.toList = xs ++ c :: ys) :
    mentions t = (mentions (String.ofList xs) || mentions (String.ofList ys)) := by
  rw [Bool.eq_iff_iff, Bool.or_eq_true, mentions_iff, mentions_iff, mentions_iff, ht,
    List.map_append, List.map_cons, infix_append_cons_iff hc]
  simp only [String.toList_ofList]

theorem getLast?_shortageWords : shortageWords.getLast? = some 's' := by decide

/-- The words do not end in a space, so none of them is cut off with one. -/
theorem mentions_append_space : mentions (s ++ " ") = mentions s := by
  have hlast : ¬ shortageWords <:+ s.toList.map Char.toLower ++ [' '] := by
    rw [List.suffix_concat_iff]
    rintro (h | ⟨front, h, -⟩)
    · have hlast := getLast?_shortageWords
      rw [h] at hlast
      cases hlast
    · have hlast := getLast?_shortageWords
      rw [h, List.getLast?_concat] at hlast
      exact absurd (Option.some.inj hlast) (by decide)
  have hspace : (s ++ " ").toList.map Char.toLower = s.toList.map Char.toLower ++ [' '] := by
    rw [String.toList_append, List.map_append]
    rfl
  rw [Bool.eq_iff_iff, mentions_iff, mentions_iff, hspace, List.infix_concat_iff,
    or_iff_right hlast]

/-- The words do not start with a space either. -/
theorem mentions_space_cons :
    mentions (String.ofList (' ' :: xs)) = mentions (String.ofList xs) := by
  have hfirst : ¬ shortageWords <+: ' ' :: xs.map Char.toLower := fun h =>
    absurd (List.cons_prefix_cons.mp h).1 (by decide)
  rw [Bool.eq_iff_iff, mentions_iff, mentions_iff, String.toList_ofList, String.toList_ofList,
    List.map_cons, show ' '.toLower = ' ' by decide, List.infix_cons_iff, or_iff_right hfirst]

theorem mentions_empty : mentions "" = false := by decide

theorem mentions_signed (hc : c.toLower ∉ shortageWords) (ht : t.toList = c :: ys) :
    mentions t = mentions (String.ofList ys) := by
  have happart : t.toList = [] ++ c :: ys := ht
  rw [mentions_of_separated hc happart, String.ofList_nil, mentions_empty, Bool.false_or]

/-- A piece that starts with a sign is apart from what stands in front of it. -/
theorem mentions_append_signed (hc : c.toLower ∉ shortageWords) (ht : t.toList = c :: ys) :
    mentions (s ++ t) = (mentions s || mentions t) := by
  have hboth : (s ++ t).toList = s.toList ++ c :: ys := by rw [String.toList_append, ht]
  rw [mentions_of_separated hc hboth, mentions_signed hc ht, String.ofList_toList]

theorem mentions_quote_append : mentions ("\"" ++ s) = mentions s := by
  have hquote : ("\"" ++ s).toList = '"' :: s.toList := by simp
  rw [mentions_signed (by decide) hquote, String.ofList_toList]

theorem signed_cause : ("\": " ++ s).toList = '"' :: ':' :: ' ' :: s.toList := by
  simp

theorem mentions_cause : mentions ("\": " ++ s) = mentions s := by
  rw [mentions_signed (by decide) signed_cause,
    mentions_signed (c := ':') (by decide) String.toList_ofList,
    mentions_space_cons, String.ofList_toList]

/-- The text of a wrapped fault speaks of a shortage where its command does or its cause does. -/
theorem mentions_execution (command : String) (f : Fault) :
    mentions (execution command f).message = (mentions command || mentions f.message) := by
  have htext : (execution command f).message = "\"" ++ command ++ "\": " ++ f.message := rfl
  rw [htext, String.append_assoc, mentions_append_signed (by decide) signed_cause,
    mentions_quote_append, mentions_cause]

end Words

section Commands

variable {pieces : List String}

/-- A piece of a command's text behind the operation: it starts with a sign. -/
def Signed (piece : String) : Prop :=
  ∃ c ys, c.toLower ∉ shortageWords ∧ piece.toList = c :: ys

theorem Signed.append {piece : String} (h : Signed piece) (t : String) : Signed (piece ++ t) := by
  obtain ⟨c, ys, hc, hpiece⟩ := h
  exact ⟨c, ys ++ t.toList, hc, by rw [String.toList_append, hpiece, List.cons_append]⟩

theorem Signed.intercalate {piece : String} (h : Signed piece) :
    Signed (String.intercalate " " (piece :: pieces)) := by
  cases pieces with
  | nil => rwa [String.intercalate_singleton]
  | cons next rest =>
    rw [String.intercalate_cons_cons, String.append_assoc]
    exact h.append _

/-- Pieces with a space between them speak of a shortage only where one of them does. -/
theorem mentions_intercalate (op : String) (h : ∀ piece ∈ pieces, Signed piece) :
    mentions (String.intercalate " " (op :: pieces)) = (mentions op || pieces.any mentions) := by
  induction pieces generalizing op with
  | nil => rw [String.intercalate_singleton, List.any_nil, Bool.or_false]
  | cons piece rest ih =>
    obtain ⟨c, ys, hc, hrest⟩ : Signed (String.intercalate " " (piece :: rest)) :=
      (h piece (List.mem_cons_self ..)).intercalate
    rw [String.intercalate_cons_cons, mentions_append_signed hc hrest, mentions_append_space,
      ih piece fun p hp => h p (List.mem_cons_of_mem _ hp), List.any_cons]

theorem signed_quoteLocation (l : Location) : Signed (Command.quoteLocation l) :=
  ⟨'"', l.text.toList ++ ['"'], by decide, by simp [Command.quoteLocation]⟩

theorem mentions_quoteLocation (l : Location) :
    mentions (Command.quoteLocation l) = mentions l.text := by
  have hquoted : (Command.quoteLocation l).toList = '"' :: (l.text.toList ++ ['"']) := by
    simp [Command.quoteLocation]
  rw [mentions_signed (by decide) hquoted,
    mentions_of_separated (c := '"') (by decide) String.toList_ofList,
    String.ofList_toList, String.ofList_nil, mentions_empty, Bool.or_false]

theorem signed_flagText {flag : String × Scalar} {shown : String}
    (h : Command.flagText flag = some shown) : Signed shown := by
  obtain ⟨v, -, rfl⟩ := Option.map_eq_some_iff.mp h
  exact ⟨'-', '-' :: (flag.1.toList ++ '=' :: v.toList), by decide, by simp⟩

/-- The text of a command speaks of a shortage where its operation, a flag or an operand does. -/
theorem mentions_text (c : Command) :
    mentions c.text =
      (mentions c.op || c.flags.any (fun flag => (Command.flagText flag).any mentions) ||
        c.locations.any fun l => mentions l.text) := by
  have hsigned : ∀ piece ∈ c.flags.filterMap Command.flagText ++
      c.locations.map Command.quoteLocation, Signed piece := by
    intro piece hpiece
    rcases List.mem_append.mp hpiece with h | h
    · obtain ⟨flag, -, hflag⟩ := List.mem_filterMap.mp h
      exact signed_flagText hflag
    · obtain ⟨l, -, rfl⟩ := List.mem_map.mp h
      exact signed_quoteLocation l
  rw [Command.text, List.cons_append, mentions_intercalate c.op hsigned, List.any_append,
    List.any_filterMap, List.any_map, ← Bool.or_assoc]
  congr 2
  · funext l
    exact mentions_quoteLocation l

end Commands

section Classification

variable (c : Command) (cs : List Command) (f : Fault)

theorem isCancellation_wrapped : (wrapped cs f).isCancellation = f.isCancellation := by
  induction cs with
  | nil => rfl
  | cons c cs ih => exact (isCancellation_execution c.text (wrapped cs f)).trans ih

theorem mentions_wrapped :
    mentions (wrapped cs f).message =
      (cs.any (fun c => mentions c.text) || mentions f.message) := by
  induction cs with
  | nil => rfl
  | cons c cs ih =>
    rw [List.any_cons, Bool.or_assoc, ← ih]
    exact mentions_execution c.text (wrapped cs f)

/-- One level of wrapping: the words of the command, and of the cause what it tells. -/
theorem isDescriptorShortage_execution :
    (execution c.text f).isDescriptorShortage = (mentions c.text || f.tells) := by
  rw [isDescriptorShortage_eq, tells, mentions_execution, tells]
  show (_ || _ || false || hasErrno tooManyFiles f) = _
  rw [Bool.or_false, Bool.or_assoc]

/-- From two levels on an error number is out of sight, and only words are left. -/
theorem isDescriptorShortage_wrapped (d : Command) :
    (wrapped (c :: d :: cs) f).isDescriptorShortage =
      ((c :: d :: cs).any (fun e => mentions e.text) || mentions f.message) := by
  have hinner : hasErrno tooManyFiles (wrapped (d :: cs) f) = false := rfl
  show (execution c.text (wrapped (d :: cs) f)).isDescriptorShortage = _
  rw [isDescriptorShortage_execution, tells, hinner, Bool.or_false, mentions_wrapped,
    List.any_cons (l := d :: cs), Bool.or_assoc]

structure Classified : Prop where
  /-- A cancellation is known as one through any number of commands. -/
  cancellation : ∀ inner, (wrapped (c :: inner) f).isCancellation = f.isCancellation
  /-- A shortage stays one, and nothing else becomes one, under these conditions only. -/
  shortage : (execution c.text f).isDescriptorShortage = f.isDescriptorShortage ↔
    f.tells = true ∨ mentions c.text = f.marked
  /-- The words of a command are those of its operation, its flags and its operands. -/
  words : mentions c.text = true ↔
    mentions c.op = true ∨
      (∃ flag ∈ c.flags, ∃ shown, Command.flagText flag = some shown ∧ mentions shown = true) ∨
      ∃ l ∈ c.locations, mentions l.text = true
  /-- Wrapped once more, a fault is known by words alone. -/
  rewrapped : ∀ d inner, (wrapped (c :: d :: inner) f).isDescriptorShortage = true ↔
    (∃ e ∈ c :: d :: inner, mentions e.text = true) ∨ mentions f.message = true
  /-- So the words of a command can end the whole run. -/
  fatal : ∀ l : Ledger, l.judge (execution c.text f) = .fatal ↔
    l.fatal = none ∧ (mentions c.text = true ∨ f.tells = true)

variable {c f} in
theorem shortage_execution_iff :
    (execution c.text f).isDescriptorShortage = f.isDescriptorShortage ↔
      f.tells = true ∨ mentions c.text = f.marked := by
  rw [isDescriptorShortage_execution, isDescriptorShortage_eq f]
  cases f.tells <;> simp

theorem judge_fatal_iff (l : Ledger) :
    l.judge f = .fatal ↔ l.fatal = none ∧ f.isDescriptorShortage = true := by
  unfold Ledger.judge
  cases l.fatal <;> cases f.isDescriptorShortage <;> cases f.isCancellation <;> simp

/-- The fault of a command is a cancellation exactly if its cause is one. It is a shortage of file
descriptors if the cause tells so or if the command mentions it. -/
theorem command_fault_classified : Classified c f where
  cancellation inner := isCancellation_wrapped (c :: inner) f
  shortage := shortage_execution_iff
  words := by
    simp only [mentions_text, Bool.or_eq_true, List.any_eq_true, Option.any_eq_true, or_assoc]
  rewrapped d inner := by
    rw [isDescriptorShortage_wrapped, Bool.or_eq_true, List.any_eq_true]
  fatal l := by
    rw [judge_fatal_iff, isDescriptorShortage_execution, Bool.or_eq_true]

end Classification

section Crowded

def crowdedCopy : Command :=
  ⟨"cp", [⟨"s3", "a", "too many open files.txt", true, none⟩,
    ⟨"s3", "b", "too many open files.txt", true, none⟩], [("raw", .flag true)]⟩

def denied : Fault := .response "AccessDenied" "denied" "CopyObject" 403

def descriptorless : Fault := .system tooManyFiles "no descriptors" none

/-- A name makes a shortage out of a refusal, and a shortage told by its number alone is lost when
it is wrapped twice. -/
theorem classification_not_by_cause :
    Command.make crowdedCopy.op crowdedCopy.flags crowdedCopy.locations = .ok crowdedCopy ∧
      (denied.isDescriptorShortage = false ∧
        (execution crowdedCopy.text denied).isDescriptorShortage = true) ∧
      ((execution "cp a b" descriptorless).isDescriptorShortage = true ∧
        (execution "cp a b" (execution "cp a b" descriptorless)).isDescriptorShortage = false) :=
  ⟨rfl, by decide +kernel⟩

end Crowded

end StoreSync.Fault
