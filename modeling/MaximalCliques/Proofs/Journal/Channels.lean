import MaximalCliques.Journal

/-!
# The channels of the library and their levels

* **`Journal.ownLevel_putLevel`** — a channel that is given a level has it, all others keep theirs.
* **`Journal.lineage_eq`** — the channels above one are among those that there are, and the one above all
  others comes last.
* **`Journal.IsLibrarys`**, **`Journal.library_mem_lineage`** — the names that stand below the library's
  channel whatever channels there are.
* **`Journal.effectiveLevel_eq`** — the level in force for a channel, if only the library's channel and the one
  above all others may have levels of their own.
-/

namespace MaximalCliques.Journal

variable {j : Journal} {c d channel : String} {l : Level}

/-! ### Levels of a channel's own -/

/-- Looking up a channel does not depend on the entries of another one. -/
theorem lookup_filter_ne (hdc : d ≠ c) (levels : List (String × Level)) :
    (levels.filter (·.1 != c)).lookup d = levels.lookup d := by
  induction levels with
  | nil => rfl
  | cons entry levels ih =>
    obtain ⟨e, m⟩ := entry
    by_cases hec : e = c
    · have hde : (d == e) = false := beq_false_of_ne fun hde => hdc (hde.trans hec)
      rw [List.filter_cons_of_neg (by simp [hec]), List.lookup_cons, hde, ih]
    · rw [List.filter_cons_of_pos (by simpa using hec), List.lookup_cons, List.lookup_cons, ih]

/-- **A channel that is given a level** has it, and the other channels keep theirs. -/
theorem ownLevel_putLevel (j : Journal) (c : String) (l : Level) (d : String) :
    (j.putLevel c l).ownLevel d = if d = c then l else j.ownLevel d := by
  unfold ownLevel putLevel
  by_cases hdc : d = c
  · rw [if_pos hdc, hdc, List.lookup_cons_self, Option.getD_some]
  · rw [if_neg hdc, List.lookup_cons, beq_false_of_ne hdc]
    exact congrArg (·.getD 0) (lookup_filter_ne hdc j.levels)

/-- The levels of the channels' own are all that a channel's own level depends on. -/
theorem ownLevel_congr {k : Journal} (h : k.levels = j.levels) : k.ownLevel c = j.ownLevel c := by
  rw [ownLevel, ownLevel, h]

theorem ownLevel_putLevel_of_ne (hdc : d ≠ c) : (j.putLevel c l).ownLevel d = j.ownLevel d := by
  rw [ownLevel_putLevel, if_neg hdc]

theorem putLevel_putLevel (j : Journal) (c : String) (l m : Level) :
    (j.putLevel c l).putLevel c m = j.putLevel c m := by
  unfold putLevel
  simp

theorem mem_channels_openChannel :
    d ∈ (j.openChannel c).channels ↔ d ∈ j.channels ∨ (c ≠ topChannel ∧ d = c) := by
  unfold openChannel
  split
  case isTrue h =>
    rcases Bool.or_eq_true_iff.1 h with htop | hthere
    · simp [of_decide_eq_true htop]
    · refine ⟨.inl, ?_⟩
      rintro (hd | ⟨-, rfl⟩)
      · exact hd
      · exact List.contains_iff_mem.1 hthere
  case isFalse h =>
    rw [Bool.or_eq_true, not_or, decide_eq_true_iff] at h
    simp [h.1, or_comm]

/-! ### The channels above a channel -/

section Above

variable {isThere : String → Bool}

theorem isThere_of_mem_above {passed : Bool} {cs : List Char} {name : String}
    (h : name ∈ above isThere passed cs) : isThere name = true := by
  induction cs generalizing passed with
  | nil => cases h
  | cons c cs ih =>
    rw [above] at h
    split at h
    · exact ih h
    · split at h
      case isTrue hthere =>
        rcases List.mem_cons.1 h with rfl | h
        · exact hthere
        · exact ih h
      case isFalse => exact ih h

/-- What stands before a dot is above a name, unless the dot is followed by another one. -/
theorem mem_above_append {cs ds : List Char} {passed : Bool}
    (hthere : isThere (String.ofList ds.reverse) = true) (hds : ds ≠ [])
    (hpassed : cs = [] → passed = false) (hcs : cs.getLast? ≠ some '.') :
    String.ofList ds.reverse ∈ above isThere passed (cs ++ '.' :: ds) := by
  induction cs generalizing passed with
  | nil =>
    have hempty : ds.isEmpty = false := by simpa using hds
    rw [hpassed rfl, List.nil_append, above]
    simp [hempty, hthere]
  | cons c cs ih =>
    have hrest : cs.getLast? ≠ some '.' := by
      cases cs with
      | nil => simp
      | cons c' cs => rwa [List.getLast?_cons_cons] at hcs
    rw [List.cons_append, above]
    split
    · exact ih (fun _ => rfl) hrest
    case isFalse hdot =>
      have hc : c = '.' := by
        rw [Bool.or_eq_true, Bool.or_eq_true, not_or, not_or, decide_eq_true_iff, Decidable.not_not] at hdot
        exact hdot.1.1
      have hne : cs ≠ [] := by
        rintro rfl
        exact hcs (by rw [hc]; rfl)
      split
      · exact List.mem_cons_of_mem _ (ih (fun h => absurd h hne) hrest)
      · exact ih (fun h => absurd h hne) hrest

end Above

/-- **The channels above one** are among those that there are, and the one above all others comes last. -/
theorem lineage_eq (htop : topChannel ∉ j.channels) (channel : String) :
    ∃ names, j.lineage channel = names ++ [topChannel] ∧ topChannel ∉ names := by
  unfold lineage
  split
  · exact ⟨[], rfl, List.not_mem_nil⟩
  case isFalse hchannel =>
    refine ⟨channel :: above j.channels.contains false channel.toList.reverse, rfl, fun h => ?_⟩
    rcases List.mem_cons.1 h with h | h
    · exact hchannel h.symm
    · exact htop (List.contains_iff_mem.1 (isThere_of_mem_above h))

/-! ### The channels of the library -/

/-- The name of the library's channel, or one that goes on after it with a dot and not with two. -/
def IsLibrarys (channel : String) : Prop :=
  channel = libraryChannel ∨
    ∃ rest, channel = libraryChannel ++ "." ++ rest ∧ rest.toList.head? ≠ some '.'

/-- **Such a name stands below the library's channel**, whatever other channels there are. -/
theorem library_mem_lineage (hlibrary : libraryChannel ∈ j.channels) (h : IsLibrarys channel) :
    libraryChannel ∈ j.lineage channel := by
  rcases h with rfl | ⟨rest, rfl, hrest⟩
  · rw [lineage, if_neg (by decide)]
    exact List.mem_cons_self
  · have hne : libraryChannel ++ "." ++ rest ≠ topChannel := by
      intro htop
      have hlength := congrArg String.length htop
      rw [String.length_append, String.length_append] at hlength
      have hlibrary : libraryChannel.length = 11 := by decide
      have htop : topChannel.length = 4 := by decide
      omega
    have hreverse : (libraryChannel ++ "." ++ rest).toList.reverse
        = rest.toList.reverse ++ '.' :: libraryChannel.toList.reverse := by
      rw [String.toList_append, String.toList_append, List.reverse_append, List.reverse_append]
      rfl
    have hname : String.ofList libraryChannel.toList.reverse.reverse = libraryChannel := by
      rw [List.reverse_reverse, String.ofList_toList]
    have hthere : j.channels.contains (String.ofList libraryChannel.toList.reverse.reverse) = true := by
      rw [hname]
      exact List.contains_iff_mem.2 hlibrary
    have hmem : String.ofList libraryChannel.toList.reverse.reverse ∈ above j.channels.contains false
        (rest.toList.reverse ++ '.' :: libraryChannel.toList.reverse) :=
      mem_above_append hthere (by decide) (fun _ => rfl) (by rwa [List.getLast?_reverse])
    rw [hname] at hmem
    rw [lineage, if_neg hne, hreverse]
    exact List.mem_append_left _ (List.mem_cons_of_mem _ hmem)

/-- A name with two dots on end stands below the library's channel only if there is a channel with the name up
to the second dot. -/
example : ({} : Journal).lineage "cliquegraph..search" = ["cliquegraph..search", "root"] ∧
    (({} : Journal).openChannel "cliquegraph.").lineage "cliquegraph..search"
      = ["cliquegraph..search", "cliquegraph.", "cliquegraph", "root"] := by
  decide

/-! ### The level in force -/

section InForce

variable (hbelow : ∀ c, c ≠ libraryChannel → c ≠ topChannel → j.ownLevel c = 0)
include hbelow

/-- Of some channels, only that of the library may have a level of its own. -/
theorem find?_ownLevel {names : List String} (hnames : topChannel ∉ names) :
    (names.map j.ownLevel).find? (·.toInt != 0)
      = if libraryChannel ∈ names ∧ (j.ownLevel libraryChannel).toInt ≠ 0
        then some (j.ownLevel libraryChannel) else none := by
  induction names with
  | nil => simp
  | cons c names ih =>
    rw [List.mem_cons, not_or] at hnames
    rw [List.map_cons, List.find?_cons, ih hnames.2]
    by_cases hc : c = libraryChannel
    · by_cases hlevel : (j.ownLevel libraryChannel).toInt = 0
      · simp [hc, hlevel]
      · simp [hc, hlevel, bne_iff_ne.2 hlevel]
    · have hzero : ((0 : Level).toInt != 0) = false := by decide
      rw [hbelow c hc (Ne.symm hnames.1), hzero]
      simp only [List.mem_cons, Ne.symm hc, false_or]

/-- **The level in force for a channel.**  If no channel but that of the library and the one above all others
has a level of its own, it is that of the library's channel, for what stands below it, and for want of that,
the level of the channel above all others. -/
theorem effectiveLevel_eq (htop : topChannel ∉ j.channels) (channel : String) :
    j.effectiveLevel channel = if libraryChannel ∈ j.lineage channel ∧ (j.ownLevel libraryChannel).toInt ≠ 0
      then j.ownLevel libraryChannel
      else if (j.ownLevel topChannel).toInt = 0 then 0 else j.ownLevel topChannel := by
  obtain ⟨names, hlineage, hnames⟩ := j.lineage_eq htop channel
  have hmem : libraryChannel ∈ names ++ [topChannel] ↔ libraryChannel ∈ names := by
    rw [List.mem_append, List.mem_singleton]
    exact or_iff_left (by decide)
  simp only [effectiveLevel, hlineage, hmem, List.map_append, List.find?_append,
    find?_ownLevel hbelow hnames]
  split
  · rfl
  · by_cases hlevel : (j.ownLevel topChannel).toInt = 0 <;> simp [hlevel]

end InForce

end MaximalCliques.Journal
