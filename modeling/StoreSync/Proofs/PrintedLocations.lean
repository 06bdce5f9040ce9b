import StoreSync.Proofs.KeyPaths

/-!
Locations and their texts. The text of a location is read as that location again, whatever names
were joined to it, so that two locations are the same exactly when their texts are equal. Only the
slash behind a bucket is lost on the way: a bucket is printed without it.
-/
namespace StoreSync

namespace Text.Slash

/-- A text is cut at its first slash. -/
theorem cut_at_slash {bucket rest : List Char} (hbucket : '/' ∉ bucket)
    (hrest : ∀ c, rest.head? = some c → c = '/') :
    (bucket ++ rest).takeWhile (· ≠ '/') = bucket ∧
      (bucket ++ rest).dropWhile (· ≠ '/') = rest := by
  have hall : ∀ c ∈ bucket, decide (c ≠ '/') = true := fun c hc =>
    decide_eq_true fun heq => hbucket (heq ▸ hc)
  rw [List.takeWhile_append_of_pos hall, List.dropWhile_append_of_pos hall]
  cases rest with
  | nil => simp
  | cons c rest =>
    obtain rfl := hrest c rfl
    simp

/-- What stands behind the characters before the first slash begins with it. -/
theorem eq_of_head?_dropWhile {cs : List Char} {c : Char}
    (h : (cs.dropWhile (· ≠ '/')).head? = some c) : c = '/' := by
  have hhead := List.head?_dropWhile_not (fun c : Char => decide (c ≠ '/')) cs
  rw [h] at hhead
  simpa using hhead

theorem join_ne_nil {p n : List Char} (hp : p ≠ []) : join p n ≠ [] := by
  unfold join
  split_ifs with habsolute
  · rintro rfl
    cases habsolute
  · simp [hp]
  · simp [hp]

end Text.Slash

namespace Location

open Text

variable {l m : Location} {text : String} {literal : Bool}

section Start

/-- A slash in the start of a remote text is followed by another one, or by nothing in it. -/
theorem slash_of_splits {p q : List Char} (h : p ++ q = remoteStart) (hp : p ≠ [])
    (hq : q ≠ []) :
    (Slash.endsInSlash p = true → q.head? = some '/') ∧
      (Slash.endsInSlash p = false → q.head? = some '/' → (q.drop 1).head? = some '/') := by
  have hsplits : ∀ n < 5, 0 < n →
      (Slash.endsInSlash (remoteStart.take n) = true → (remoteStart.drop n).head? = some '/') ∧
        (Slash.endsInSlash (remoteStart.take n) = false → (remoteStart.drop n).head? = some '/' →
          ((remoteStart.drop n).drop 1).head? = some '/') := by decide
  have hlength : p.length + q.length = 5 := by
    rw [← List.length_append, h]
    rfl
  have hp' := List.length_pos_iff.mpr hp
  have hq' := List.length_pos_iff.mpr hq
  have hsplit := hsplits p.length (by omega) hp'
  rwa [← h, List.take_left, List.drop_left] at hsplit

/-- No name that is joined to a path makes it begin as a remote text. -/
theorem not_remoteStart_join {p n : List Char} (hp : p ≠ []) (hother : ¬ remoteStart <+: p) :
    ¬ remoteStart <+: Slash.join p n := by
  intro hstart
  -- What the path lacks of the start would have to come from the name behind it.
  have hseam {rest : List Char} (h : remoteStart <+: p ++ rest) :
      ∃ q, p ++ q = remoteStart ∧ q ≠ [] ∧ q <+: rest := by
    obtain ⟨q, hq⟩ := (List.prefix_or_prefix_of_prefix (List.prefix_append p rest) h).resolve_right
      hother
    refine ⟨q, hq, ?_, ?_⟩
    · rintro rfl
      have heq : remoteStart = p := hq.symm.trans (List.append_nil p)
      exact hother (heq ▸ List.prefix_rfl)
    · rw [← hq] at h
      exact (List.prefix_append_right_inj p).mp h
  have hhead {q rest : List Char} {c : Char} (h : q <+: rest) (hc : q.head? = some c) :
      rest.head? = some c := by
    obtain ⟨t, rfl⟩ := h
    rw [List.head?_append, hc, Option.some_or]
  unfold Slash.join at hstart
  split_ifs at hstart with habsolute hslash
  · have hs : n.head? = some 's' := hhead hstart rfl
    rw [habsolute] at hs
    cases hs
  · obtain ⟨q, hsplit, hq, hrest⟩ := hseam hstart
    have hends : Slash.endsInSlash p = true := by simpa [hp] using hslash
    exact habsolute (hhead hrest ((slash_of_splits hsplit hp hq).1 hends))
  · obtain ⟨q, hsplit, hq, hrest⟩ := hseam hstart
    have hends : Slash.endsInSlash p = false := by simpa [hp] using hslash
    obtain ⟨c, q, rfl⟩ := List.exists_cons_of_ne_nil hq
    obtain ⟨rfl, hname⟩ := List.cons_prefix_cons.mp hrest
    exact habsolute (hhead hname ((slash_of_splits hsplit hp hq).2 hends rfl))

end Start

section Reading

/-- How a text is read. What follows the bucket is nothing, or a slash and then the key. -/
inductive Reads (raw : Bool) : String → Location → Prop
  | remote {text bucket : String} {rest : List Char}
      (spelled : text.toList = remoteStart ++ (bucket.toList ++ rest))
      (nonempty : bucket ≠ "") (unslashed : '/' ∉ bucket.toList)
      (plain : Glob.hasSpecial bucket.toList = false)
      (boundary : ∀ c, rest.head? = some c → c = '/') :
      Reads raw text ⟨remoteScheme, bucket, String.ofList (rest.drop 1), raw, none⟩
  | path {text : String} (nonempty : text ≠ "") (other : ¬ remoteStart <+: text.toList) :
      Reads raw text ⟨"", "", text, raw, none⟩

theorem reads_of_parse (h : parse text literal = .ok l) : Reads literal text l := by
  unfold parse at h
  dsimp only at h
  split_ifs at h with hempty hremote hbucket hspecial
  · obtain ⟨cs, hcs⟩ := List.isPrefixOf_iff_prefix.mp hremote
    rw [← hcs, List.drop_left] at h hbucket hspecial
    obtain rfl := Except.ok.inj h
    have hspelled : text.toList = remoteStart ++
        ((String.ofList (cs.takeWhile (· ≠ '/'))).toList ++ cs.dropWhile (· ≠ '/')) := by
      rw [String.toList_ofList, List.takeWhile_append_dropWhile, hcs]
    refine .remote hspelled ?_ ?_ ?_ fun c => Slash.eq_of_head?_dropWhile
    · simpa using hbucket
    · rw [String.toList_ofList]
      exact fun hmem => by simpa using List.mem_takeWhile_imp hmem
    · simpa using hspecial
  · obtain rfl := Except.ok.inj h
    exact .path (by simpa using hempty) (by simpa [List.isPrefixOf_iff_prefix] using hremote)

theorem Reads.parse (h : Reads literal text l) : parse text literal = .ok l := by
  unfold Location.parse
  dsimp only
  cases h with
  | @remote bucket rest spelled nonempty unslashed plain boundary =>
    obtain ⟨htake, hdrop⟩ := Slash.cut_at_slash unslashed boundary
    have hne : text.toList ≠ [] := by simp [spelled, remoteStart]
    have hstart : remoteStart.isPrefixOf text.toList = true :=
      List.isPrefixOf_iff_prefix.mpr ⟨_, spelled.symm⟩
    have hbucket : bucket.toList ≠ [] := mt String.toList_eq_nil_iff.mp nonempty
    rw [if_neg (by simpa using hne), if_pos hstart, spelled, List.drop_left, htake, hdrop,
      if_neg (by simpa using hbucket), if_neg (by simp [plain]), String.ofList_toList]
  | path nonempty other =>
    have hne : text.toList ≠ [] := mt String.toList_eq_nil_iff.mp nonempty
    rw [if_neg (by simpa using hne), if_neg (by simpa [List.isPrefixOf_iff_prefix] using other)]

def behindBucket (key : String) : List Char := if key = "" then [] else '/' :: key.toList

theorem drop_behindBucket (key : String) : (behindBucket key).drop 1 = key.toList := by
  unfold behindBucket
  split_ifs with hkey
  · simp [hkey]
  · rfl

theorem toList_text_remote (bucket key : String) (literal : Bool) :
    (Location.text ⟨remoteScheme, bucket, key, literal, none⟩).toList =
      remoteStart ++ (bucket.toList ++ behindBucket key) := by
  unfold Location.text behindBucket
  split_ifs <;> simp_all [isRemote, remoteStart]

theorem reads_text_remote {bucket : String} (nonempty : bucket ≠ "")
    (unslashed : '/' ∉ bucket.toList) (plain : Glob.hasSpecial bucket.toList = false)
    (key : String) (literal : Bool) :
    Reads literal (Location.text ⟨remoteScheme, bucket, key, literal, none⟩)
      ⟨remoteScheme, bucket, key, literal, none⟩ := by
  have hboundary (c : Char) (hc : (behindBucket key).head? = some c) : c = '/' := by
    unfold behindBucket at hc
    split_ifs at hc
    · cases hc
    · exact (Option.some.inj hc).symm
  have hreads : Reads literal (Location.text ⟨remoteScheme, bucket, key, literal, none⟩) _ :=
    .remote (toList_text_remote bucket key literal) nonempty unslashed plain hboundary
  rwa [drop_behindBucket, String.ofList_toList] at hreads

/-- What is printed is read as what it was printed from. -/
theorem Reads.printed (h : Reads literal text l) : Reads literal l.text l := by
  cases h with
  | remote spelled nonempty unslashed plain boundary =>
    exact reads_text_remote nonempty unslashed plain _ literal
  | path nonempty other => exact .path nonempty other

/-- Whether a pattern is meant does not matter for how a text is read. -/
theorem Reads.setLiteral (h : Reads literal text l) (raw : Bool) :
    Reads raw text (l.setLiteral raw) := by
  cases h with
  | remote spelled nonempty unslashed plain boundary =>
    exact .remote spelled nonempty unslashed plain boundary
  | path nonempty other => exact .path nonempty other

/-- A name that is joined changes the key or the path, and neither the bucket nor the side. -/
theorem Reads.join (h : Reads literal text l) (name : String) :
    Reads literal (l.join name).text (l.join name) := by
  cases h with
  | remote spelled nonempty unslashed plain boundary =>
    exact reads_text_remote nonempty unslashed plain _ literal
  | path nonempty other =>
    have hne : text.toList ≠ [] := mt String.toList_eq_nil_iff.mp nonempty
    refine .path ?_ ?_
    · change String.ofList (Slash.join text.toList name.toList) ≠ ""
      simpa using Slash.join_ne_nil hne
    · change ¬ remoteStart <+: (String.ofList (Slash.join text.toList name.toList)).toList
      rw [String.toList_ofList]
      exact not_remoteStart_join hne other

theorem Reads.foldl_join (h : Reads literal text l) (names : List String) :
    Reads literal (names.foldl Location.join l).text (names.foldl Location.join l) := by
  induction names generalizing l text with
  | nil => exact h.printed
  | cons name rest ih => exact ih (h.join name)

def SlashedRoot (text : String) : Prop :=
  ∃ bucket : String, '/' ∉ bucket.toList ∧ text = "s3://" ++ bucket ++ "/"

theorem Reads.isRemote_iff (h : Reads literal text l) :
    l.isRemote = true ↔ remoteStart <+: text.toList := by
  cases h with
  | remote spelled nonempty unslashed plain boundary =>
    exact iff_of_true rfl ⟨_, spelled.symm⟩
  | path nonempty other => exact iff_of_false Bool.false_ne_true other

/-- The slash behind a whole bucket is all that can be lost when a text is read and printed. -/
theorem Reads.text_eq (h : Reads literal text l) :
    ¬ SlashedRoot text ∧ l.text = text ∨ SlashedRoot text ∧ l.text ++ "/" = text := by
  cases h with
  | @remote bucket rest spelled nonempty unslashed plain boundary =>
    have hprinted := toList_text_remote bucket (String.ofList (rest.drop 1)) literal
    by_cases hroot : rest = ['/']
    · subst hroot
      have htext : text = "s3://" ++ bucket ++ "/" := by
        apply String.toList_inj.mp
        simp [spelled, remoteStart]
      refine .inr ⟨⟨bucket, unslashed, htext⟩, ?_⟩
      apply String.toList_inj.mp
      rw [String.toList_append, hprinted, spelled]
      simp [behindBucket]
    · refine .inl ⟨?_, ?_⟩
      · rintro ⟨root, hslash, rfl⟩
        have hcut : root.toList ++ ['/'] = bucket.toList ++ rest := by
          simpa [remoteStart] using spelled
        have hrest := (Slash.cut_at_slash unslashed boundary).2
        rw [← hcut, (Slash.cut_at_slash hslash (by simp)).2] at hrest
        exact hroot hrest.symm
      · apply String.toList_inj.mp
        rw [hprinted, spelled]
        cases rest with
        | nil => simp [behindBucket]
        | cons c rest =>
          obtain rfl := boundary c rfl
          have hne : rest ≠ [] := fun hnil => hroot (by rw [hnil])
          simp [behindBucket, hne]
  | path nonempty other =>
    refine .inl ⟨?_, rfl⟩
    rintro ⟨root, -, rfl⟩
    exact other (by simp [remoteStart])

end Reading

section Printing

theorem text_of_same (h : l.same m = true) : l.text = m.text := by
  obtain ⟨hscheme, hbucket, hpath⟩ := l.same_iff.mp h
  simp [Location.text, isRemote, hscheme, hbucket, hpath]

/-- Locations that are read from texts are the same exactly when their texts are equal. -/
theorem same_iff_text_eq {raw : Bool} (hl : Reads literal l.text l) (hm : Reads raw m.text m) :
    l.same m = true ↔ l.text = m.text := by
  refine ⟨text_of_same, fun heq => ?_⟩
  have hreread := (hl.setLiteral raw).parse
  rw [heq, hm.parse] at hreread
  rw [Except.ok.inj hreread]
  exact l.same_refl

/-- A location that is read from a text is printed as the text, but for the slash behind a whole
bucket. Whatever names are joined to it, the text of what comes out is read as that again, also
where patterns are taken literally or not; it begins as the texts of remote locations do exactly
when the location is remote; and two locations that come out so are the same exactly when their
texts are equal. -/
theorem printed_names_location {text' : String} {literal' : Bool}
    (h : parse text literal = .ok l) (h' : parse text' literal' = .ok m)
    (names names' : List String) :
    let u := names.foldl join l
    let u' := names'.foldl join m
    (¬ SlashedRoot text ∧ l.text = text ∨ SlashedRoot text ∧ l.text ++ "/" = text) ∧
    parse u.text literal = .ok u ∧
    (∀ raw, ∃ v, parse u.text raw = .ok v ∧ v.same u = true) ∧
    (u.isRemote = true ↔ remoteStart <+: u.text.toList) ∧
    (u.same u' = true ↔ u.text = u'.text) := by
  intro u u'
  have hu : Reads literal u.text u := (reads_of_parse h).foldl_join names
  have hu' : Reads literal' u'.text u' := (reads_of_parse h').foldl_join names'
  refine ⟨(reads_of_parse h).text_eq, hu.parse, fun raw => ?_, hu.isRemote_iff,
    same_iff_text_eq hu hu'⟩
  exact ⟨u.setLiteral raw, (hu.setLiteral raw).parse, u.same_refl⟩

def wholeBucket : Location := ⟨"s3", "b", "", false, none⟩

/-- A path that lacks two slashes to begin as a remote text. -/
def nearlyRemote : Location := ⟨"", "", "s3:", true, none⟩

/-- Empty names bring one of the slashes that the path lacks, and no more. -/
theorem printed_names_location_nearlyRemote :
    parse "s3://b/" false = .ok wholeBucket ∧ parse "s3:" true = .ok nearlyRemote ∧
      let u := ["", "/x", "", "*"].foldl join wholeBucket
      let u' := ["", "", "x"].foldl join nearlyRemote
      u.text = "s3://b//x/*" ∧ u'.text = "s3:/x" ∧ parse "s3://b//x/*" false = .ok u ∧
        wholeBucket.text ++ "/" = "s3://b/" ∧ (u.same u' = true ↔ u.text = u'.text) := by
  have h : parse "s3://b/" false = .ok wholeBucket := rfl
  have h' : parse "s3:" true = .ok nearlyRemote := rfl
  obtain ⟨htext, hreread, -, -, hsame⟩ :=
    printed_names_location h h' ["", "/x", "", "*"] ["", "", "x"]
  have hroot : SlashedRoot "s3://b/" := ⟨"b", by decide, rfl⟩
  refine ⟨h, h', by decide, by decide, hreread, ?_, hsame⟩
  exact (htext.resolve_left fun hplain => hplain.1 hroot).2

end Printing

end Location

end StoreSync
