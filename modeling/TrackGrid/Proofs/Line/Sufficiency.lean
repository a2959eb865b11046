import TrackGrid.Proofs.Line.Totality

/-! When the required length gives an item its extent. Tracks are rounded one by one but the room is
found from the sum of their shares, so an item may come out short. -/

namespace TrackGrid

/-- The part of a list that belongs to the tracks of an interval. -/
def Interval.slice {α : Type} (i : Interval) (xs : List α) : List α :=
  (xs.drop i.first.toNat).take (i.last + 1 - i.first).toNat

theorem Interval.slice_sublist {α : Type} (i : Interval) (xs : List α) :
    (i.slice xs).Sublist xs :=
  (List.take_sublist _ _).trans (List.drop_sublist _ _)

theorem Interval.mem_of_mem_slice {α : Type} (i : Interval) {xs : List α} {x : α}
    (h : x ∈ i.slice xs) : x ∈ xs :=
  (i.slice_sublist xs).subset h

namespace Line

variable {tracks : List Track} {items : List (Item Id)} {kind : Sizing}

def contributions (tracks : List Track) (items : List (Item Id)) :
    ExceptT Fault Id (List Contribution) :=
  tracks.zipIdx.mapM fun (track, index) => contribution (fillShare tracks) items track index

private theorem contribution_fixed {share : Binary64} {track : Track} {index : Nat}
    {c : Contribution} (h : Returns (contribution share items track index) c) :
    ∃ pixels extent, (if track.isAbsolute then track.pixels else pure 0) = .ok pixels ∧
      Returns (if track.isContent then contentExtent track index items else pure 0) extent ∧
      c.fixed = pixels + extent := by
  unfold contribution at h
  cases ha : track.isAbsolute with
  | true =>
    rw [if_pos ha, Returns.bind_iff] at h
    obtain ⟨pixels, hp, hc⟩ := h
    cases Returns.pure_iff.mp hc
    rw [Track.isContent_of_isAbsolute ha]
    exact ⟨pixels, 0, hp, Returns.pure_iff.mpr rfl, (Int.add_zero _).symm⟩
  | false =>
    rw [if_neg (by simp [ha])] at h
    cases hc : track.isContent with
    | true =>
      rw [if_pos hc, Returns.bind_iff] at h
      obtain ⟨extent, he, hc⟩ := h
      cases Returns.pure_iff.mp hc
      exact ⟨0, extent, rfl, he, (Int.zero_add _).symm⟩
    | false =>
      rw [if_neg (by simp [hc])] at h
      refine ⟨0, 0, rfl, Returns.pure_iff.mpr rfl, ?_⟩
      split at h <;> cases Returns.pure_iff.mp h <;> rfl

/-- The sizes that tracks contribute are those of the first two passes. -/
theorem passes_of_contributions {share : Binary64} {n : Nat} {cs : List Contribution}
    (h : List.Forall₂ (fun p c => Returns (contribution share items p.1 p.2) c)
      (tracks.zipIdx n) cs) :
    ∃ absolute content, absoluteSizes tracks = .ok absolute ∧
      List.Forall₂ (fun p extent => Returns
        (if p.1.isContent then contentExtent p.1 p.2 items else pure 0) extent)
        (tracks.zipIdx n) content ∧
      cs.map Contribution.fixed = addSizes absolute content := by
  simp only [absoluteSizes, mapM_eq_ok_iff]
  induction tracks generalizing n cs with
  | nil =>
    cases h
    exact ⟨[], [], .nil, .nil, rfl⟩
  | cons track rest ih =>
    obtain ⟨c, cs, hc, hcs, rfl⟩ := List.forall₂_cons_left_iff.mp h
    obtain ⟨pixels, extent, hp, he, hfixed⟩ := contribution_fixed hc
    obtain ⟨absolute, content, ha, hcontent, hmap⟩ := ih hcs
    refine ⟨pixels :: absolute, extent :: content, .cons hp ha, .cons he hcontent, ?_⟩
    rw [List.map_cons, hfixed, hmap]
    rfl

private theorem longest_of_foldlM {ι : Type} {need : ι → ExceptT Fault Id (Option Int)}
    {xs : List ι} {a b : Int}
    (h : Returns (xs.foldlM (fun longest x => return max longest ((← need x).getD longest)) a) b) :
    a ≤ b ∧ (∀ x ∈ xs, ∃ n, Returns (need x) n ∧ ∀ k ∈ n, k ≤ b) ∧
      (b = a ∨ ∃ x ∈ xs, Returns (need x) (some b)) := by
  induction xs generalizing a with
  | nil =>
    cases Returns.pure_iff.mp h
    simp
  | cons x xs ih =>
    rw [List.foldlM_cons, Returns.bind_iff] at h
    obtain ⟨c, hc, hrest⟩ := h
    obtain ⟨n, hn, hmax⟩ := Returns.bind_iff.mp hc
    obtain rfl := Returns.pure_iff.mp hmax
    obtain ⟨hle, hall, hlast⟩ := ih hrest
    refine ⟨(le_max_left _ _).trans hle, ?_, ?_⟩
    · simp only [List.mem_cons, forall_eq_or_imp]
      refine ⟨⟨n, hn, fun k hk => ?_⟩, hall⟩
      rw [Option.mem_def.mp hk] at hle
      exact (le_max_right _ _).trans hle
    · simp only [List.mem_cons, exists_eq_or_imp]
      rcases hlast with rfl | hlast
      · cases n with
        | none => exact .inl (max_self a)
        | some k =>
          rcases max_choice a k with hmax | hmax
          · exact .inl hmax
          · exact .inr (.inl (by rwa [Option.getD_some, hmax]))
      · exact .inr (.inr hlast)

def needBeyond (cs : List Contribution) (item : Item Id) (extent : Int) : Int :=
  extent - ((item.tracks.slice cs).map Contribution.fixed).sum

def spannedShares (cs : List Contribution) (item : Item Id) : List Binary64 :=
  (item.tracks.slice cs).filterMap Contribution.share

private theorem returns_itemNeed_iff {cs : List Contribution} {item : Item Id} {n : Option Int} :
    Returns (itemNeed cs kind item) n ↔ ∃ extent, Returns (item.extent kind) extent ∧
      if spannedShares cs item = [] then n = none
      else ∃ k, scaledNeed (needBeyond cs item extent) (spannedShares cs item)
        (cs.countP (·.share.isSome)) = .ok k ∧ n = some k := by
  rw [itemNeed, Returns.bind_iff]
  refine exists_congr fun extent => and_congr_right fun _ => ?_
  change Returns (if (spannedShares cs item).isEmpty then _ else _) n ↔ _
  by_cases hempty : spannedShares cs item = []
  · rw [if_pos (List.isEmpty_iff.mpr hempty), if_pos hempty, Returns.pure_iff, eq_comm]
  · rw [if_neg (mt List.isEmpty_iff.mp hempty), if_neg hempty, Returns.bind_iff]
    refine exists_congr fun k => and_congr Iff.rfl ?_
    rw [Returns.pure_iff, eq_comm]

private theorem scaledNeed_of_itemNeed {cs : List Contribution} {item : Item Id} {room : Int}
    (h : Returns (itemNeed cs kind item) (some room)) :
    ∃ extent, Returns (item.extent kind) extent ∧
      scaledNeed (needBeyond cs item extent) (spannedShares cs item)
        (cs.countP (·.share.isSome)) = .ok room := by
  obtain ⟨extent, hextent, hneed⟩ := returns_itemNeed_iff.mp h
  refine ⟨extent, hextent, ?_⟩
  split at hneed
  · cases hneed
  · obtain ⟨k, hk, heq⟩ := hneed
    cases heq
    exact hk

/-- A scaled need can be made a number again. -/
private theorem exists_ofInt_of_scaledNeed {need room : Int} {shares : List Binary64} {takers : Nat}
    (hroom : 0 ≤ room) (h : scaledNeed need shares takers = .ok room) :
    ∃ x, Binary64.ofInt room = .ok x := by
  cases hx : Binary64.ofInt need with
  | error => simp [scaledNeed, hx, bind, Except.bind] at h
  | ok x =>
    simp only [scaledNeed, hx, bind, Except.bind] at h
    exact Binary64.exists_ofInt_of_roundHalfUp hroom h

private theorem drop_dealFill (part remainder : Int) (n : Nat) :
    (dealFill part remainder tracks).drop n = dealFill part remainder (tracks.drop n) := by
  induction tracks generalizing n with
  | nil => simp [dealFill]
  | cons track rest ih =>
    cases n with
    | zero => rfl
    | succ n => exact ih n

/-- A stretch of tracks holds the remainder if it holds the last fill track. -/
private theorem sum_take_dealFill (part remainder : Int) (n : Nat) :
    ((dealFill part remainder tracks).take n).sum =
      (tracks.take n).countP Track.isFill * part +
        if (tracks.take n).any Track.isFill && !(tracks.drop n).any Track.isFill then remainder
        else 0 := by
  induction tracks generalizing n with
  | nil => simp [dealFill]
  | cons track rest ih =>
    cases n with
    | zero => simp
    | succ n =>
      have hany : rest.any Track.isFill =
          ((rest.take n).any Track.isFill || (rest.drop n).any Track.isFill) := by
        rw [← List.any_append, List.take_append_drop]
      simp only [dealFill, List.take_succ_cons, List.drop_succ_cons, List.sum_cons, ih n, hany,
        List.countP_cons, List.any_cons, Int.natCast_add, Int.add_mul]
      cases track.isFill <;> cases (rest.take n).any Track.isFill <;>
        cases (rest.drop n).any Track.isFill <;> simp <;> omega

/-- Whether the last fill track is among the tracks of an interval. -/
def holdsLastFill (tracks : List Track) (i : Interval) : Bool :=
  (i.slice tracks).any Track.isFill && !(tracks.drop (i.last + 1).toNat).any Track.isFill

private theorem sum_slice_dealFill (part remainder : Int) {i : Interval} (hi : 0 ≤ i.first) :
    (i.slice (dealFill part remainder tracks)).sum =
      (i.slice tracks).countP Track.isFill * part +
        if holdsLastFill tracks i then remainder else 0 := by
  have hcond : ((i.slice tracks).any Track.isFill &&
      !(tracks.drop (i.first.toNat + (i.last + 1 - i.first).toNat)).any Track.isFill) =
        holdsLastFill tracks i := by
    unfold holdsLastFill
    -- a stretch of no tracks holds no fill track, wherever it ends
    rcases lt_or_ge i.last i.first with hlt | hle
    · simp [Interval.slice, show (i.last + 1 - i.first).toNat = 0 by omega]
    · rw [show i.first.toNat + (i.last + 1 - i.first).toNat = (i.last + 1).toNat by omega]
  rw [← hcond, Interval.slice, drop_dealFill, sum_take_dealFill, List.drop_drop]
  rfl

/-- What the tracks of an interval take of the room: the relative tracks their sizes, each fill
track an equal part of the rest, and the last fill track what cannot be divided too. -/
def taken (tracks : List Track) (relative : List Int) (room : Int) (i : Interval) : Int :=
  let rest := max (room - relative.sum) 0
  let fills : Int := tracks.countP Track.isFill
  (i.slice relative).sum + ((i.slice tracks).countP Track.isFill * (rest / fills) +
    if holdsLastFill tracks i then rest % fills else 0)

private theorem sum_slice_addSizes {xs ys : List Int} (h : xs.length = ys.length) (i : Interval) :
    (i.slice (addSizes xs ys)).sum = (i.slice xs).sum + (i.slice ys).sum := by
  rw [← sum_addSizes (by simp [Interval.slice, h])]
  simp only [Interval.slice, addSizes, List.drop_zipWith, List.take_zipWith]

private theorem sum_slice_taken {relative : List Int} {i : Interval} (room : Int)
    (hr : relative.length = tracks.length) (hi : 0 ≤ i.first) :
    (i.slice (addSizes relative (fillSizes (max (room - relative.sum) 0) tracks))).sum =
      taken tracks relative room i := by
  have hfill := fillSizes_only (le_max_right (room - relative.sum) 0) tracks
  rw [sum_slice_addSizes (hr.trans hfill.length_eq.symm), fillSizes, sum_slice_dealFill _ _ hi]
  rfl

/-- What the required length is made of: the fixed sizes, and the room that the most demanding item
asks of the tracks that share it. -/
theorem required_parts {length : Int} (h : Returns (required tracks items kind) length) :
    ∃ cs room, Returns (contributions tracks items) cs ∧
      length = room + (cs.map Contribution.fixed).sum ∧ 0 ≤ room ∧
      (room = 0 ∨ ∃ item ∈ items.filter (·.inside tracks.length),
        Returns (itemNeed cs kind item) (some room)) ∧
      ∀ item ∈ items.filter (·.inside tracks.length),
        ∃ n, Returns (itemNeed cs kind item) n ∧ ∀ k ∈ n, k ≤ room := by
  obtain ⟨cs, hcs, h⟩ := Returns.bind_iff.mp h
  obtain ⟨room, hroom, h⟩ := Returns.bind_iff.mp h
  obtain ⟨hnonneg, hall, hlast⟩ := longest_of_foldlM hroom
  exact ⟨cs, room, hcs, (Returns.pure_iff.mp h).symm, hnonneg, hlast, hall⟩

private theorem exists_ofInt_of_room {cs : List Contribution} {room : Int} (hroom : 0 ≤ room)
    (h : room = 0 ∨ ∃ item ∈ items.filter (·.inside tracks.length),
      Returns (itemNeed cs kind item) (some room)) :
    ∃ x, Binary64.ofInt room = .ok x := by
  rcases h with rfl | ⟨item, -, hitem⟩
  · exact ⟨Binary64.zero, by decide +kernel⟩
  · obtain ⟨extent, -, hneed⟩ := scaledNeed_of_itemNeed hitem
    exact exists_ofInt_of_scaledNeed hroom hneed

/-- A line can be laid out in a length that leaves a room that can be made a number. -/
private theorem exists_solve {cs : List Contribution} {room : Int} {x : Binary64}
    (hcs : Returns (contributions tracks items) cs) (hroom : 0 ≤ room)
    (hx : Binary64.ofInt room = .ok x) (origin : Int) :
    ∃ relative, relativeSizes room tracks = .ok relative ∧
      Returns (solve tracks origin (room + (cs.map Contribution.fixed).sum) items)
        (ofSizes origin (addSizes (cs.map Contribution.fixed)
          (addSizes relative (fillSizes (max (room - relative.sum) 0) tracks)))) := by
  obtain ⟨absolute, content, ha, hcontent, hfixed⟩ :=
    passes_of_contributions (Returns.mapM_iff.mp hcs)
  obtain ⟨relative, hr⟩ := exists_relativeSizes hroom hx tracks
  have hlength : absolute.length = content.length := by
    rw [(absoluteSizes_only ha).length_eq, ← hcontent.length_eq, List.length_zipIdx]
  have hleft : room + (addSizes absolute content).sum - total absolute - total content = room := by
    rw [sum_addSizes hlength, total_eq_sum, total_eq_sum]
    omega
  refine ⟨relative, hr, ?_⟩
  rw [hfixed]
  refine Returns.bind_iff.mpr ⟨absolute, ha, Returns.bind_iff.mpr ⟨content, ?_, ?_⟩⟩
  · exact Returns.mapM_iff.mpr hcontent
  · refine Returns.bind_iff.mpr ⟨relative, ?_, Returns.pure_iff.mpr ?_⟩
    · rw [hleft, max_eq_left hroom]
      exact hr
    · rw [hleft, total_eq_sum]

/-- What the tracks of an interval get when a line is laid out: their fixed sizes and what they take
of the room. -/
theorem sum_slice_solved {fixed relative : List Int} {i : Interval} (room : Int)
    (hf : fixed.length = tracks.length) (hr : relative.length = tracks.length) (hi : 0 ≤ i.first) :
    (i.slice (addSizes fixed
      (addSizes relative (fillSizes (max (room - relative.sum) 0) tracks)))).sum =
      (i.slice fixed).sum + taken tracks relative room i := by
  have hfill := fillSizes_only (le_max_right (room - relative.sum) 0) tracks
  have hrest : (addSizes relative (fillSizes (max (room - relative.sum) 0) tracks)).length =
      tracks.length := by
    simp [addSizes, hr, hfill.length_eq]
  rw [sum_slice_addSizes (hf.trans hrest.symm), sum_slice_taken room hr hi]

/-- A line that requires a length can be laid out in it, and then an item inside of the tracks has
its extent if and only if what its tracks take of the room reaches what the item needs beyond the
fixed sizes. The room itself is the largest of the needs, each divided by the sum of the shares that
the item spans and rounded to the nearest integer. -/
theorem required_meets_iff {tracks : List Track} {items : List (Item Id)} {kind : Sizing}
    {length : Int} (h : Returns (required tracks items kind) length) (origin : Int) :
    ∃ cs relative line room, Returns (contributions tracks items) cs ∧
      length = room + (cs.map Contribution.fixed).sum ∧ 0 ≤ room ∧
      relativeSizes room tracks = .ok relative ∧
      Returns (solve tracks origin length items) line ∧
      (room = 0 ∨ ∃ item ∈ items, item.inside tracks.length = true ∧
        ∃ extent, Returns (item.extent kind) extent ∧
          scaledNeed (needBeyond cs item extent) (spannedShares cs item)
            (cs.countP (·.share.isSome)) = .ok room) ∧
      ∀ item ∈ items, item.inside tracks.length = true →
        ∃ extent, Returns (item.extent kind) extent ∧
          (spannedShares cs item ≠ [] → ∃ scaled ≤ room,
            scaledNeed (needBeyond cs item extent) (spannedShares cs item)
              (cs.countP (·.share.isSome)) = .ok scaled) ∧
          (extent ≤ (item.tracks.slice line.sizes).sum ↔
            needBeyond cs item extent ≤ taken tracks relative room item.tracks) := by
  obtain ⟨cs, room, hcs, rfl, hroom, hlast, hall⟩ := required_parts h
  obtain ⟨x, hx⟩ := exists_ofInt_of_room hroom hlast
  obtain ⟨relative, hr, hsolve⟩ := exists_solve hcs hroom hx origin
  have hfixed : (cs.map Contribution.fixed).length = tracks.length := by
    rw [List.length_map, ← (Returns.mapM_iff.mp hcs).length_eq, List.length_zipIdx]
  refine ⟨cs, relative, _, room, hcs, rfl, hroom, hr, hsolve, ?_, fun item hitem hinside => ?_⟩
  · refine hlast.imp_right fun ⟨item, hmem, hneed⟩ => ?_
    obtain ⟨hitem, hinside⟩ := List.mem_filter.mp hmem
    exact ⟨item, hitem, hinside, scaledNeed_of_itemNeed hneed⟩
  · obtain ⟨n, hn, hle⟩ := hall item (List.mem_filter.mpr ⟨hitem, hinside⟩)
    obtain ⟨extent, hextent, hcase⟩ := returns_itemNeed_iff.mp hn
    refine ⟨extent, hextent, fun hshares => ?_, ?_⟩
    · rw [if_neg hshares] at hcase
      obtain ⟨k, hk, rfl⟩ := hcase
      exact ⟨k, hle k rfl, hk⟩
    · simp only [Item.inside, Bool.and_eq_true, decide_eq_true_eq] at hinside
      have hsum := sum_slice_solved (i := item.tracks) room hfixed
        (relativeSizes_only hroom hr).length_eq hinside.1
      change extent ≤ (item.tracks.slice (addSizes _ _)).sum ↔ _
      rw [hsum, needBeyond]
      simp only [Interval.slice, List.map_drop, List.map_take]
      omega

private def mixedTracks : List Track :=
  [.number (.int 10), .sizing .preferred, .number (.float .half), .fill]

private def mixedItems : List (Item Id) :=
  [⟨.one 1, true, fun _ => pure 30⟩, ⟨.one 2, true, fun _ => pure 40⟩,
    ⟨.one 3, true, fun _ => pure 25⟩]

theorem mixedTracks_meet : ∃ line, Returns (solve mixedTracks 0 120 mixedItems) line ∧
    ∀ item ∈ mixedItems, ∃ extent, Returns (item.extent .preferred) extent ∧
      extent ≤ (item.tracks.slice line.sizes).sum := by
  have hrequired : Returns (required mixedTracks mixedItems .preferred) 120 := by decide +kernel
  obtain ⟨cs, relative, line, room, hcs, hlength, -, hr, hsolve, -, hmeets⟩ :=
    required_meets_iff hrequired 0
  have hfixed : cs.map Contribution.fixed = [10, 30, 0, 0] := by
    have hmap : (contributions mixedTracks mixedItems).run.run.map (List.map Contribution.fixed) =
        .ok [10, 30, 0, 0] := by decide +kernel
    rw [hcs] at hmap
    exact Except.ok.inj hmap
  obtain rfl : room = 80 := by
    rw [hfixed] at hlength
    change (120 : Int) = room + 40 at hlength
    omega
  obtain rfl : relative = [0, 0, 40, 0] := by
    have hsizes : relativeSizes 80 mixedTracks = .ok [0, 0, 40, 0] := by decide +kernel
    exact Except.ok.inj (hr.symm.trans hsizes)
  refine ⟨line, hsolve, fun item hitem => ?_⟩
  have hinside : item.inside mixedTracks.length = true := by
    revert item
    decide +kernel
  obtain ⟨extent, hextent, -, hiff⟩ := hmeets item hitem hinside
  refine ⟨extent, hextent, hiff.mpr ?_⟩
  have hneed : needBeyond cs item extent =
      extent - (item.tracks.slice (cs.map Contribution.fixed)).sum := by
    simp only [needBeyond, Interval.slice, List.map_drop, List.map_take]
  rw [hneed, hfixed]
  simp only [mixedItems, List.mem_cons, List.not_mem_nil, or_false] at hitem
  rcases hitem with rfl | rfl | rfl <;> cases hextent <;> decide +kernel

private def threeFills : List Track := [.fill, .fill, .fill]

private def narrowItem : Item Id := ⟨⟨0, 1⟩, false, fun _ => pure 1⟩

/-- Three fill tracks and an item of one pixel in the first two of them: two pixels are required,
and both go to the third track. -/
theorem required_two_meets_none :
    Returns (required threeFills [narrowItem] .preferred) 2 ∧
    (Number.int 0).lt (.float (sumShares [fillShare threeFills, fillShare threeFills])) = true ∧
    Returns (solve threeFills 0 2 [narrowItem]) ⟨[0, 0, 2], [0, 0, 0, 2]⟩ ∧
    Returns (narrowItem.extent .preferred) 1 ∧
    (narrowItem.tracks.slice [0, 0, 2]).sum < (1 : Int) := by
  refine ⟨?_, ?_, ?_, ?_, ?_⟩ <;> decide +kernel

end Line
end TrackGrid
