import Whirlpools.Foundation.Segments
import Whirlpools.Sdk.RemainingAccountsUtil

/-! # Packing and parsing remaining accounts

The program accepts the slices of valid types that do not repeat a type and fit the accounts, and
stores for each the consecutive segment it announces. What the SDK packs is parsed back.
-/

namespace Whirlpools

open Outcome

variable {α : Type}

/-- The slices of an instruction; none without the optional data. -/
def slicesOf (remainingAccountsInfo : Option RemainingAccountsInfo) : List RemainingAccountsSlice :=
  remainingAccountsInfo.elim [] RemainingAccountsInfo.slices

/-- The label and length a slice announces. -/
def RemainingAccountsSlice.announced (slice : RemainingAccountsSlice) : AccountsType × ℕ :=
  (slice.accountsType, slice.length.toNat)

/-- The number of accounts announced by slices. -/
def announcedLength (slices : List RemainingAccountsSlice) : ℕ :=
  Segments.total (slices.map RemainingAccountsSlice.announced)

/-- The types of the slices that are not empty. -/
def filledTypes (slices : List RemainingAccountsSlice) : List AccountsType :=
  (slices.filter fun slice => slice.length ≠ 0).map RemainingAccountsSlice.accountsType

/-- Every type is valid, no type has two slices that are not empty, and the accounts suffice. -/
structure Packed (valid : List AccountsType) (slices : List RemainingAccountsSlice)
    (remainingAccounts : List α) : Prop where
  types : ∀ slice ∈ slices, slice.accountsType ∈ valid
  distinct : (filledTypes slices).Nodup
  lengths : announcedLength slices ≤ remainingAccounts.length

/-- Every field holds the segment that its slice announces, or nothing without one. -/
structure HoldsSegments (slices : List RemainingAccountsSlice) (remainingAccounts : List α)
    (parsed : ParsedRemainingAccounts α) : Prop where
  segment : ∀ earlier slice later, slices = earlier ++ slice :: later → slice.length ≠ 0 →
    parsed.field slice.accountsType =
      some ((remainingAccounts.drop (announcedLength earlier)).take slice.length.toNat)
  absent : ∀ accountsType ∉ filledTypes slices, parsed.field accountsType = none

section Parse

variable {valid : List AccountsType} {slice : RemainingAccountsSlice}
  {slices : List RemainingAccountsSlice} {remaining : List α}
  {parsed : ParsedRemainingAccounts α} {next : List α × ParsedRemainingAccounts α}

/-- A slice announces its own accounts and those of the rest. -/
theorem announcedLength_cons (slice : RemainingAccountsSlice)
    (slices : List RemainingAccountsSlice) :
    announcedLength (slice :: slices) = slice.length.toNat + announcedLength slices :=
  Segments.total_cons _ _ _

theorem filledTypes_cons (slice : RemainingAccountsSlice) (slices : List RemainingAccountsSlice) :
    filledTypes (slice :: slices) =
      if slice.length = 0 then filledTypes slices
      else slice.accountsType :: filledTypes slices := by
  unfold filledTypes
  by_cases empty : slice.length = 0
  · rw [if_pos empty, List.filter_cons_of_neg (by simpa using empty)]
  · rw [if_neg empty, List.filter_cons_of_pos (by simpa using empty), List.map_cons]

/-- An accepted slice leaves the fields of the other types as they were. -/
theorem parseSlice_field_of_ne {accountsType : AccountsType}
    (step : parseSlice valid (remaining, parsed) slice = .ok next)
    (other : slice.length = 0 ∨ accountsType ≠ slice.accountsType) :
    next.2.field accountsType = parsed.field accountsType := by
  obtain ⟨-, -, -, rfl⟩ := parseSlice_eq_ok.mp step
  dsimp only
  split_ifs with empty
  · rfl
  · rw [ParsedRemainingAccounts.field_setField, if_neg (other.resolve_left empty)]

/-- The slices are accepted exactly when they are packed and no type that is not empty has been
filled before. -/
theorem foldlM_parseSlice_succeeds :
    (∃ next, slices.foldlM (parseSlice valid) (remaining, parsed) = .ok next) ↔
      Packed valid slices remaining ∧
        ∀ accountsType ∈ filledTypes slices, parsed.field accountsType = none := by
  induction slices generalizing remaining parsed with
  | nil =>
      refine iff_of_true ⟨_, rfl⟩ ⟨⟨?_, List.nodup_nil, Nat.zero_le _⟩, ?_⟩
      · exact fun slice inside => absurd inside List.not_mem_nil
      · exact fun accountsType inside => absurd inside List.not_mem_nil
  | cons slice slices ih =>
      simp only [List.foldlM_cons, bind_eq_ok]
      constructor
      · rintro ⟨next, middle, step, rest⟩
        obtain ⟨packed, free⟩ := ih.mp ⟨next, rest⟩
        obtain ⟨isValid, enough, unfilled, rfl⟩ := parseSlice_eq_ok.mp step
        have lengths : announcedLength (slice :: slices) ≤ remaining.length := by
          have left := packed.lengths
          rw [List.length_drop] at left
          rw [announcedLength_cons]
          omega
        have types : ∀ other ∈ slice :: slices, other.accountsType ∈ valid :=
          List.forall_mem_cons.mpr ⟨isValid, packed.types⟩
        by_cases empty : slice.length = 0
        · rw [if_pos empty] at free
          refine ⟨⟨types, ?_, lengths⟩, ?_⟩
          · rw [filledTypes_cons, if_pos empty]
            exact packed.distinct
          · rw [filledTypes_cons, if_pos empty]
            exact free
        · rw [if_neg empty] at free
          have fresh : slice.accountsType ∉ filledTypes slices := by
            intro again
            have held := free _ again
            rw [ParsedRemainingAccounts.field_setField, if_pos rfl] at held
            exact Option.some_ne_none _ held
          refine ⟨⟨types, ?_, lengths⟩, ?_⟩
          · rw [filledTypes_cons, if_neg empty]
            exact List.nodup_cons.mpr ⟨fresh, packed.distinct⟩
          · rw [filledTypes_cons, if_neg empty]
            refine List.forall_mem_cons.mpr ⟨unfilled empty, fun accountsType inside => ?_⟩
            have held := free _ inside
            rwa [ParsedRemainingAccounts.field_setField,
              if_neg (ne_of_mem_of_not_mem inside fresh)] at held
      · rintro ⟨packed, free⟩
        obtain ⟨isValid, types⟩ := List.forall_mem_cons.mp packed.types
        have lengths := packed.lengths
        have distinct := packed.distinct
        rw [announcedLength_cons] at lengths
        rw [filledTypes_cons] at free distinct
        have left : announcedLength slices ≤ (remaining.drop slice.length.toNat).length := by
          rw [List.length_drop]
          omega
        by_cases empty : slice.length = 0
        · rw [if_pos empty] at free distinct
          obtain ⟨next, rest⟩ := ih.mpr ⟨⟨types, distinct, left⟩, free⟩
          refine ⟨next, _, parseSlice_eq_ok.mpr ⟨isValid, by omega, fun filled =>
            absurd empty filled, rfl⟩, ?_⟩
          rw [if_pos empty]
          exact rest
        · rw [if_neg empty] at free distinct
          obtain ⟨unfilled, free⟩ := List.forall_mem_cons.mp free
          obtain ⟨fresh, distinct⟩ := List.nodup_cons.mp distinct
          have stillFree : ∀ accountsType ∈ filledTypes slices,
              (parsed.setField (remaining.take slice.length.toNat) slice.accountsType).field
                accountsType = none := by
            intro accountsType inside
            rw [ParsedRemainingAccounts.field_setField,
              if_neg (ne_of_mem_of_not_mem inside fresh)]
            exact free _ inside
          obtain ⟨next, rest⟩ := ih.mpr ⟨⟨types, distinct, left⟩, stillFree⟩
          refine ⟨next, _, parseSlice_eq_ok.mpr ⟨isValid, by omega, fun _ => unfilled, rfl⟩, ?_⟩
          rw [if_neg empty]
          exact rest

/-- Accepted slices leave the fields without a slice as they were. -/
theorem foldlM_parseSlice_absent {accountsType : AccountsType}
    (success : slices.foldlM (parseSlice valid) (remaining, parsed) = .ok next)
    (without : accountsType ∉ filledTypes slices) :
    next.2.field accountsType = parsed.field accountsType := by
  induction slices generalizing remaining parsed with
  | nil =>
      cases success
      rfl
  | cons slice slices ih =>
      rw [List.foldlM_cons, bind_eq_ok] at success
      obtain ⟨middle, step, rest⟩ := success
      rw [filledTypes_cons] at without
      have other : slice.length = 0 ∨ accountsType ≠ slice.accountsType := by
        by_cases empty : slice.length = 0
        · exact .inl empty
        · rw [if_neg empty] at without
          exact .inr (List.ne_of_not_mem_cons without)
      have later : accountsType ∉ filledTypes slices := by
        by_cases empty : slice.length = 0
        · rwa [if_pos empty] at without
        · rw [if_neg empty] at without
          exact List.not_mem_of_not_mem_cons without
      exact (ih rest later).trans (parseSlice_field_of_ne step other)

/-- An accepted slice that is not empty is stored as the segment it announces. -/
theorem foldlM_parseSlice_segment {earlier later : List RemainingAccountsSlice}
    (success : (earlier ++ slice :: later).foldlM (parseSlice valid) (remaining, parsed) = .ok next)
    (filled : slice.length ≠ 0) :
    next.2.field slice.accountsType =
      some ((remaining.drop (announcedLength earlier)).take slice.length.toNat) := by
  induction earlier generalizing remaining parsed with
  | nil =>
      rw [List.nil_append, List.foldlM_cons, bind_eq_ok] at success
      obtain ⟨middle, step, rest⟩ := success
      obtain ⟨-, free⟩ := foldlM_parseSlice_succeeds.mp ⟨next, rest⟩
      obtain ⟨-, -, -, rfl⟩ := parseSlice_eq_ok.mp step
      rw [if_neg filled] at free rest
      have stored : (parsed.setField (remaining.take slice.length.toNat) slice.accountsType).field
          slice.accountsType = some (remaining.take slice.length.toNat) := by
        rw [ParsedRemainingAccounts.field_setField, if_pos rfl]
      have fresh : slice.accountsType ∉ filledTypes later := by
        intro again
        exact Option.some_ne_none _ (stored.symm.trans (free _ again))
      exact (foldlM_parseSlice_absent rest fresh).trans stored
  | cons first earlier ih =>
      rw [List.cons_append, List.foldlM_cons, bind_eq_ok] at success
      obtain ⟨middle, step, rest⟩ := success
      obtain ⟨-, -, -, rfl⟩ := parseSlice_eq_ok.mp step
      rw [ih rest, announcedLength_cons, List.drop_drop]

end Parse

section Program

variable {valid : List AccountsType} {remainingAccounts : List α}
  {info : Option RemainingAccountsInfo} {parsed : ParsedRemainingAccounts α}

/-- The program parses the slices from the first account on, with all fields empty. -/
theorem parseRemainingAccounts_eq_ok :
    parseRemainingAccounts remainingAccounts info valid = .ok parsed ↔
      ∃ next, (slicesOf info).foldlM (parseSlice valid) (remainingAccounts, {}) = .ok next ∧
        next.2 = parsed := by
  cases info with
  | none =>
      constructor
      · intro success
        exact ⟨_, rfl, Except.ok.inj success⟩
      · rintro ⟨next, empty, rfl⟩
        cases empty
        rfl
  | some info => simp only [parseRemainingAccounts, bind_eq_ok, Except.ok.injEq]; rfl

/-- Parsing succeeds exactly on packed accounts. -/
theorem parseRemainingAccounts_succeeds :
    (∃ parsed, parseRemainingAccounts remainingAccounts info valid = .ok parsed) ↔
      Packed valid (slicesOf info) remainingAccounts := by
  have folded := @foldlM_parseSlice_succeeds α valid (slicesOf info) remainingAccounts {}
  constructor
  · rintro ⟨parsed, success⟩
    obtain ⟨next, accepted, -⟩ := parseRemainingAccounts_eq_ok.mp success
    exact (folded.mp ⟨next, accepted⟩).1
  · intro packed
    obtain ⟨next, accepted⟩ := folded.mpr
      ⟨packed, fun accountsType _ => ParsedRemainingAccounts.field_empty accountsType⟩
    exact ⟨next.2, parseRemainingAccounts_eq_ok.mpr ⟨next, accepted, rfl⟩⟩

/-- What is parsed are the segments that the slices announce. -/
theorem parseRemainingAccounts_holds
    (success : parseRemainingAccounts remainingAccounts info valid = .ok parsed) :
    HoldsSegments (slicesOf info) remainingAccounts parsed := by
  obtain ⟨next, folded, rfl⟩ := parseRemainingAccounts_eq_ok.mp success
  refine ⟨fun earlier slice later split filled => ?_, fun accountsType without => ?_⟩
  · rw [split] at folded
    exact foldlM_parseSlice_segment folded filled
  · rw [foldlM_parseSlice_absent folded without, ParsedRemainingAccounts.field_empty]

end Program

section Builder

open Sdk

/-- The arguments of one `addSlice` call. -/
abbrev SliceCall (α : Type) : Type := AccountsType × Option (List α)

/-- A builder after a list of calls. -/
def builderAfter (calls : List (SliceCall α)) : RemainingAccountsBuilder α :=
  calls.foldl (fun builder call => builder.addSlice call.1 call.2) {}

/-- The accounts that a call adds, if any. -/
def SliceCall.added (call : SliceCall α) : Option (AccountsType × List α) :=
  match call.2 with
  | none => none
  | some accounts => if accounts.length = 0 then none else some (call.1, accounts)

/-- The lists that calls add, with their types. -/
def addedBy (calls : List (SliceCall α)) : List (AccountsType × List α) :=
  calls.filterMap SliceCall.added

/-- Calls with distinct types, whose lists fit one byte of length and have a valid type. -/
structure Addable (valid : List AccountsType) (calls : List (SliceCall α)) : Prop where
  distinct : (calls.map Prod.fst).Nodup
  short : ∀ call ∈ calls, ∀ accounts, call.2 = some accounts → accounts.length ≤ 255
  types : ∀ call ∈ calls, ∀ accounts, call.2 = some accounts → accounts ≠ [] → call.1 ∈ valid

/-- A call adds accounts when it has some. -/
theorem SliceCall.added_eq_some {call : SliceCall α} {accountsType : AccountsType}
    {accounts : List α} : call.added = some (accountsType, accounts) ↔
      call = (accountsType, some accounts) ∧ accounts ≠ [] := by
  obtain ⟨callType, given⟩ := call
  unfold added
  cases given with
  | none => simp
  | some given =>
      dsimp only
      split_ifs with empty
      · cases List.length_eq_zero_iff.mp empty
        refine iff_of_false (fun absent => nomatch absent) ?_
        rintro ⟨same, filled⟩
        exact filled (Option.some.inj (Prod.mk.inj same).2).symm
      · simp only [Option.some.injEq, Prod.mk.injEq]
        refine ⟨?_, fun both => both.1⟩
        rintro ⟨rfl, rfl⟩
        exact ⟨⟨rfl, rfl⟩, fun nothing => empty (List.length_eq_zero_iff.mpr nothing)⟩

/-- What the calls add comes from one of them. -/
theorem mem_addedBy {calls : List (SliceCall α)} {accountsType : AccountsType}
    {accounts : List α} : (accountsType, accounts) ∈ addedBy calls ↔
      (accountsType, some accounts) ∈ calls ∧ accounts ≠ [] := by
  unfold addedBy
  simp only [List.mem_filterMap, SliceCall.added_eq_some]
  constructor
  · rintro ⟨call, inside, rfl, filled⟩
    exact ⟨inside, filled⟩
  · rintro ⟨inside, filled⟩
    exact ⟨_, inside, rfl, filled⟩

/-- A call appends what it adds to the slices and to the accounts. -/
theorem addSlice_eq (builder : RemainingAccountsBuilder α) (call : SliceCall α) :
    (builder.addSlice call.1 call.2).slices = builder.slices ++
        call.added.toList.map (fun entry => ⟨entry.1, entry.2.length⟩) ∧
      (builder.addSlice call.1 call.2).remainingAccounts =
        builder.remainingAccounts ++ call.added.toList.flatMap Prod.snd := by
  obtain ⟨callType, given⟩ := call
  unfold RemainingAccountsBuilder.addSlice SliceCall.added
  cases given with
  | none => simp
  | some given => by_cases empty : given.length = 0 <;> simp [empty]

/-- The builder keeps the added lists end to end, with their lengths. -/
theorem foldl_addSlice (calls : List (SliceCall α)) (builder : RemainingAccountsBuilder α) :
    let built := calls.foldl (fun builder call => builder.addSlice call.1 call.2) builder
    built.slices = builder.slices ++
        (addedBy calls).map (fun entry => ⟨entry.1, entry.2.length⟩) ∧
      built.remainingAccounts = builder.remainingAccounts ++ (addedBy calls).flatMap Prod.snd := by
  induction calls generalizing builder with
  | nil => exact ⟨(List.append_nil _).symm, (List.append_nil _).symm⟩
  | cons call calls ih =>
      have split : addedBy (call :: calls) = call.added.toList ++ addedBy calls := by
        unfold addedBy
        cases added : call.added with
        | none => rw [List.filterMap_cons_none added]; rfl
        | some entry => rw [List.filterMap_cons_some added]; rfl
      obtain ⟨slices, accounts⟩ := addSlice_eq builder call
      obtain ⟨laterSlices, laterAccounts⟩ := ih (builder.addSlice call.1 call.2)
      rw [split, List.map_append, List.flatMap_append, ← List.append_assoc, ← List.append_assoc,
        ← slices, ← accounts]
      exact ⟨laterSlices, laterAccounts⟩

/-- The program's slice for an added list. -/
def sliceOf (entry : AccountsType × List α) : RemainingAccountsSlice :=
  ⟨entry.1, BitVec.ofNat 8 entry.2.length⟩

/-- The slices that announce short lists are written unchanged. -/
theorem mapM_encode {lists : List (AccountsType × List α)}
    (short : ∀ entry ∈ lists, entry.2.length ≤ 255) :
    (lists.map fun entry =>
        (⟨entry.1, entry.2.length⟩ : RemainingAccountsSliceData)).mapM
      RemainingAccountsSliceData.encode = some (lists.map sliceOf) := by
  induction lists with
  | nil => rfl
  | cons first lists ih =>
      obtain ⟨shortFirst, short⟩ := List.forall_mem_cons.mp short
      have encoded : RemainingAccountsSliceData.encode ⟨first.1, first.2.length⟩ =
          some (sliceOf first) := if_pos shortFirst
      rw [List.map_cons, List.mapM_cons, encoded, ih short]
      rfl

/-- Written slices announce the lists they stand for. -/
theorem announced_sliceOf {lists : List (AccountsType × List α)}
    (short : ∀ entry ∈ lists, entry.2.length ≤ 255) :
    (lists.map sliceOf).map RemainingAccountsSlice.announced = Segments.announce lists := by
  rw [List.map_map]
  refine List.map_congr_left fun entry inside => ?_
  have small : entry.2.length < 2 ^ 8 := Nat.lt_succ_of_le (short entry inside)
  exact Prod.ext rfl (Nat.mod_eq_of_lt small)

/-- The slice of a short list with accounts announces some. -/
theorem sliceOf_length_ne {entry : AccountsType × List α} (short : entry.2.length ≤ 255)
    (filled : entry.2 ≠ []) : (sliceOf entry).length ≠ 0 := by
  intro empty
  have small : entry.2.length < 2 ^ 8 := Nat.lt_succ_of_le short
  have zero : entry.2.length % 2 ^ 8 = 0 := congrArg BitVec.toNat empty
  rw [Nat.mod_eq_of_lt small] at zero
  exact filled (List.length_eq_zero_iff.mp zero)

/-- The types that packed lists fill are their own. -/
theorem filledTypes_sliceOf {lists : List (AccountsType × List α)}
    (short : ∀ entry ∈ lists, entry.2.length ≤ 255) (filled : ∀ entry ∈ lists, entry.2 ≠ []) :
    filledTypes (lists.map sliceOf) = lists.map Prod.fst := by
  unfold filledTypes
  rw [List.filter_eq_self.mpr, List.map_map]
  · rfl
  · intro slice inside
    obtain ⟨entry, added, rfl⟩ := List.mem_map.mp inside
    exact decide_eq_true (sliceOf_length_ne (short entry added) (filled entry added))

/-- Packing by the calls and parsing gives the added lists back under their types. -/
def PacksBack (valid : List AccountsType) (calls : List (SliceCall α)) : Prop :=
  ∃ info parsed, encodeInfo (builderAfter calls).build.1 = some info ∧
    parseRemainingAccounts ((builderAfter calls).build.2.getD []) info valid = .ok parsed ∧
    ∀ accountsType accounts, parsed.field accountsType = some accounts ↔
      (accountsType, some accounts) ∈ calls ∧ accounts ≠ []

section Pack

variable {valid : List AccountsType} {calls : List (SliceCall α)}

/-- The types of the added lists are distinct, since those of the calls are. -/
theorem Addable.nodup (addable : Addable valid calls) :
    ((addedBy calls).map Prod.fst).Nodup := by
  refine List.pairwise_map.mpr ((List.pairwise_map.mp addable.distinct).filterMap _ ?_)
  rintro call other different ⟨callType, accounts⟩ added ⟨otherType, others⟩ addedOther
  obtain ⟨rfl, -⟩ := SliceCall.added_eq_some.mp added
  obtain ⟨rfl, -⟩ := SliceCall.added_eq_some.mp addedOther
  exact different

/-- What an addable call adds is short, has accounts and is of a valid type. -/
theorem Addable.added (addable : Addable valid calls) {entry : AccountsType × List α}
    (inside : entry ∈ addedBy calls) : entry.2.length ≤ 255 ∧ entry.2 ≠ [] ∧ entry.1 ∈ valid := by
  obtain ⟨call, filled⟩ := mem_addedBy.mp inside
  exact ⟨addable.short _ call _ rfl, filled, addable.types _ call _ rfl filled⟩

/-- What is built are the slices of the added lists and the lists end to end. -/
theorem build_builderAfter (short : ∀ entry ∈ addedBy calls, entry.2.length ≤ 255) :
    ∃ info, encodeInfo (builderAfter calls).build.1 = some info ∧
      slicesOf info = (addedBy calls).map sliceOf ∧
      (builderAfter calls).build.2.getD [] = (addedBy calls).flatMap Prod.snd := by
  obtain ⟨slices, accounts⟩ := foldl_addSlice calls ({} : RemainingAccountsBuilder α)
  change (builderAfter calls).slices = [] ++ _ at slices
  change (builderAfter calls).remainingAccounts = [] ++ _ at accounts
  rw [List.nil_append] at slices accounts
  unfold RemainingAccountsBuilder.build
  split_ifs with empty
  · rw [slices, List.length_map, List.length_eq_zero_iff] at empty
    refine ⟨none, rfl, ?_, ?_⟩ <;> rw [empty] <;> rfl
  · refine ⟨some ⟨(addedBy calls).map sliceOf⟩, ?_, rfl, accounts⟩
    rw [slices]
    unfold encodeInfo RemainingAccountsInfoData.encode
    dsimp only
    rw [mapM_encode short]
    rfl

theorem Addable.packed (addable : Addable valid calls) :
    Packed valid ((addedBy calls).map sliceOf) ((addedBy calls).flatMap Prod.snd) := by
  refine ⟨fun slice inside => ?_, ?_, ?_⟩
  · obtain ⟨entry, member, rfl⟩ := List.mem_map.mp inside
    exact (addable.added member).2.2
  · rw [filledTypes_sliceOf (fun entry inside => (addable.added inside).1)
      (fun entry inside => (addable.added inside).2.1)]
    exact addable.nodup
  · unfold announcedLength
    rw [announced_sliceOf (fun entry inside => (addable.added inside).1)]
    exact Nat.le_of_eq (Segments.total_announce _)

/-- A parse of the added lists holds exactly these lists. -/
theorem Addable.field_iff (addable : Addable valid calls) {parsed : ParsedRemainingAccounts α}
    (holds : HoldsSegments ((addedBy calls).map sliceOf) ((addedBy calls).flatMap Prod.snd) parsed)
    (accountsType : AccountsType) (accounts : List α) :
    parsed.field accountsType = some accounts ↔ (accountsType, accounts) ∈ addedBy calls := by
  have short : ∀ entry ∈ addedBy calls, entry.2.length ≤ 255 := fun entry inside =>
    (addable.added inside).1
  have stored {entry : AccountsType × List α} (inside : entry ∈ addedBy calls) :
      parsed.field entry.1 = some entry.2 := by
    have located := inside
    rw [← Segments.cut_announce (addedBy calls)] at located
    obtain ⟨earlier, length, later, split, segment⟩ := Segments.mem_cut.mp located
    rw [← announced_sliceOf short] at split
    obtain ⟨before, rest, slices, rfl, tail⟩ := List.map_eq_append_iff.mp split
    obtain ⟨slice, after, rfl, label, rfl⟩ := List.map_eq_cons_iff.mp tail
    obtain ⟨type, lengthEq⟩ := Prod.mk.inj label
    have member : slice ∈ (addedBy calls).map sliceOf := by
      rw [slices]
      exact List.mem_append_right _ List.mem_cons_self
    obtain ⟨added, addedInside, rfl⟩ := List.mem_map.mp member
    have held := holds.segment before _ after slices
      (sliceOf_length_ne (short added addedInside) (addable.added addedInside).2.1)
    rw [type] at held
    rw [held, segment, ← lengthEq]
    rfl
  constructor
  · intro held
    by_contra notAdded
    by_cases named : accountsType ∈ (addedBy calls).map Prod.fst
    · obtain ⟨entry, inside, rfl⟩ := List.mem_map.mp named
      have same := Option.some.inj ((stored inside).symm.trans held)
      rw [← same] at notAdded
      exact notAdded inside
    · rw [← filledTypes_sliceOf short (fun entry inside => (addable.added inside).2.1)] at named
      exact Option.some_ne_none _ (held.symm.trans (holds.absent _ named))
  · exact stored

theorem packsBack (addable : Addable valid calls) : PacksBack valid calls := by
  obtain ⟨info, encoded, slices, accounts⟩ :=
    build_builderAfter (fun entry inside => (addable.added inside).1)
  have packed := addable.packed
  rw [← slices, ← accounts] at packed
  obtain ⟨parsed, success⟩ := parseRemainingAccounts_succeeds.mpr packed
  refine ⟨info, parsed, encoded, success, fun accountsType held => ?_⟩
  have holds := parseRemainingAccounts_holds success
  rw [slices, accounts] at holds
  rw [addable.field_iff holds, mem_addedBy]

end Pack

/-- Remaining accounts are parsed exactly when the slices pack them, into the segments announced,
and what the builder packs is parsed back. -/
theorem remainingAccounts_roundTrip (valid : List AccountsType) :
    (∀ (remainingAccounts : List α) (info : Option RemainingAccountsInfo),
      ((∃ parsed, parseRemainingAccounts remainingAccounts info valid = .ok parsed) ↔
        Packed valid (slicesOf info) remainingAccounts) ∧
      ∀ parsed, parseRemainingAccounts remainingAccounts info valid = .ok parsed →
        HoldsSegments (slicesOf info) remainingAccounts parsed) ∧
    ∀ calls : List (SliceCall α), Addable valid calls → PacksBack valid calls :=
  ⟨fun _ _ => ⟨parseRemainingAccounts_succeeds, fun _ => parseRemainingAccounts_holds⟩,
    fun _ => packsBack⟩

/-- Two lists with a call without accounts between them are packed and parsed back. -/
theorem remainingAccounts_roundTrip_two :
    PacksBack [.transferHookInput, .transferHookOutput]
      [(.transferHookInput, some [10, 11]), (.transferHookIntermediate, none),
        (.transferHookOutput, some [12])] := by
  refine (remainingAccounts_roundTrip _).2 _ ⟨by decide, fun call inside accounts given => ?_,
    fun call inside accounts given _ => ?_⟩
  · simp only [List.mem_cons, List.not_mem_nil, or_false] at inside
    rcases inside with rfl | rfl | rfl <;> cases given <;> decide
  · simp only [List.mem_cons, List.not_mem_nil, or_false] at inside
    rcases inside with rfl | rfl | rfl <;> cases given <;> decide

end Builder
end Whirlpools
