import Codex.Conversation.TurnBoundary
import Codex.Lib.Turns

/-!
# Dropping the last turns of a history

`conversation/src/context_manager/history.rs`: `drop_last_n_user_turns`, which cuts a history before
one of its turn boundaries and moves the cut back over the contextual items that prepared the
dropped turn. The history's tool state and caches are not modelled here.
-/

namespace Codex.Conversation

open Codex.Text

/-- `RealizedContextBaseline` (`history.rs:380`). -/
inductive RealizedContextBaseline (TurnContextItem : Type) where
  | known (item : TurnContextItem)
  | unknown
  deriving DecidableEq

/-- `ContextManager` (`history.rs:421`), without its tool state and its caches. -/
structure ContextManager (TurnContextItem WorldStateSnapshot : Type) where
  items : List ResponseItem
  historyVersion : Nat
  projectionRevision : Nat
  realizedContextBaseline : RealizedContextBaseline TurnContextItem
  worldStateBaseline : Option WorldStateSnapshot

/-- `u64::saturating_add(1)`. -/
def saturatingSucc (value : Nat) : Nat := min (value + 1) (2 ^ 64 - 1)

/-- The `SelectedSkill` slot of `classify_stable_text` (`stable_context.rs:1558`). No text that the
    branches before it recognise is a skill. -/
def isSelectedSkillText (role : String) (text : Text) : Bool :=
  let text := trim text
  ["system", "developer", "user"].contains role && "<skill>".toList.isPrefixOf text &&
    "</skill>".toList.isSuffixOf text

/-- `is_trusted_selected_skill_item` (`stable_context.rs:125`). -/
def isTrustedSelectedSkillItem : ResponseItem → Bool
  | .message id role content _ _ =>
      id.any isTrustedStableContextId && !content.isEmpty && content.all fun part =>
        match part with
        | .inputText text => isSelectedSkillText role text.toList
        | _ => false
  | _ => false

/-- What `replace` takes out of the items it is given (`history.rs:1341`). -/
def isRemovableSystemItem (item : ResponseItem) : Bool :=
  (match item with
    | .message _ role _ _ _ => role = "system"
    | _ => false) && !isTrustedSelectedSkillItem item

variable {TurnContextItem WorldStateSnapshot : Type}

/-- `replace` (`history.rs:1340`). -/
def ContextManager.replace (history : ContextManager TurnContextItem WorldStateSnapshot)
    (items : List ResponseItem) : ContextManager TurnContextItem WorldStateSnapshot :=
  { items := items.filter fun item => !isRemovableSystemItem item
    historyVersion := saturatingSucc history.historyVersion
    projectionRevision := saturatingSucc history.projectionRevision
    realizedContextBaseline := .unknown
    worldStateBaseline := none }

section Turns

variable (hookPromptXml : Text → Option (Text × Text))

/-- `user_message_positions` (`history.rs:2673`). -/
def userMessagePositions (items : List ResponseItem) : List Nat :=
  items.findIdxs (isUserTurnBoundary hookPromptXml)

/-- `trim_pre_turn_context_updates` (`history.rs:1658`): the cut and the baseline. -/
def trimPreTurnContextUpdates (snapshot : List ResponseItem) (firstInstructionTurnIdx : Nat) :
    Nat → RealizedContextBaseline TurnContextItem → Nat × RealizedContextBaseline TurnContextItem
  | 0, baseline => (0, baseline)
  | cutIdx + 1, baseline =>
      if cutIdx + 1 ≤ firstInstructionTurnIdx then (cutIdx + 1, baseline)
      else
        match snapshot[cutIdx]? with
        | none => (cutIdx + 1, baseline)
        | some item =>
            match item with
            | .message id role content phase metadata =>
                if role = "developer" && isContextualDevMessageContent content then
                  trimPreTurnContextUpdates snapshot firstInstructionTurnIdx cutIdx
                    (if hasNonContextualDevMessageContent content then .unknown else baseline)
                else if isContextualUserMessage hookPromptXml
                    (.message id role content phase metadata) then
                  trimPreTurnContextUpdates snapshot firstInstructionTurnIdx cutIdx baseline
                else (cutIdx + 1, baseline)
            | _ => (cutIdx + 1, baseline)

/-- `drop_last_n_user_turns` (`history.rs:1369`). A `u32` always fits a `usize`. -/
def ContextManager.dropLastNUserTurns (history : ContextManager TurnContextItem WorldStateSnapshot)
    (numTurns : Nat) : ContextManager TurnContextItem WorldStateSnapshot :=
  if numTurns = 0 then history
  else
    let snapshot := history.items
    let userPositions := userMessagePositions hookPromptXml snapshot
    match userPositions.head? with
    | none => history
    | some firstInstructionTurnIdx =>
        let cutIdx :=
          if userPositions.length ≤ numTurns then firstInstructionTurnIdx
          else userPositions.getD (userPositions.length - numTurns) 0
        let trimmed := trimPreTurnContextUpdates hookPromptXml snapshot firstInstructionTurnIdx
          cutIdx history.realizedContextBaseline
        { history with realizedContextBaseline := trimmed.2 }.replace (snapshot.take trimmed.1)

/-- The contextual developer and user items. -/
def isContextItem (item : ResponseItem) : Bool :=
  (match item with
    | .message _ role content _ _ => role = "developer" && isContextualDevMessageContent content
    | _ => false) || isContextualUserMessage hookPromptXml item

theorem isContextItem_of_boundary (item : ResponseItem)
    (boundary : isUserTurnBoundary hookPromptXml item = true) :
    isContextItem hookPromptXml item = false := by
  have user := isContextualUserMessage_of_boundary hookPromptXml boundary
  cases item with
  | message id role content phase metadata =>
    have isUser : role = "user" := by
      simp only [isUserTurnBoundary] at boundary
      grind
    rw [isContextItem, user, isUser]
    rfl
  | _ => exact user

/-- One step of the walk back from a cut. -/
theorem trimPreTurnContextUpdates_succ {snapshot : List ResponseItem} {first cut : Nat}
    {item : ResponseItem} (found : snapshot[cut]? = some item) (after : first < cut + 1)
    (baseline : RealizedContextBaseline TurnContextItem) :
    ∃ next : RealizedContextBaseline TurnContextItem,
      (trimPreTurnContextUpdates hookPromptXml snapshot first (cut + 1) baseline).1 =
        if isContextItem hookPromptXml item then
          (trimPreTurnContextUpdates hookPromptXml snapshot first cut next).1
        else cut + 1 := by
  rw [trimPreTurnContextUpdates, if_neg (Nat.not_le.mpr after), found]
  cases item with
  | message id role content phase metadata =>
    simp only
    split
    next developer =>
      have context : isContextItem hookPromptXml (.message id role content phase metadata) = true :=
        Bool.or_eq_true_iff.mpr (.inl developer)
      exact ⟨_, (if_pos context).symm⟩
    next other =>
      have same : isContextItem hookPromptXml (.message id role content phase metadata) =
          isContextualUserMessage hookPromptXml (.message id role content phase metadata) := by
        rw [isContextItem, Bool.eq_false_iff.mpr other, Bool.false_or]
      refine ⟨baseline, ?_⟩
      rw [same]
      split <;> rfl
  | _ => exact ⟨baseline, rfl⟩

/-- The walk back from a cut stops at the last item that is no context, or at the first turn. -/
theorem take_trimPreTurnContextUpdates (snapshot : List ResponseItem) (first : Nat) {cut : Nat}
    (baseline : RealizedContextBaseline TurnContextItem) (after : first ≤ cut)
    (inside : cut ≤ snapshot.length) :
    snapshot.take (trimPreTurnContextUpdates hookPromptXml snapshot first cut baseline).1 =
      snapshot.take first ++
        ((snapshot.take cut).drop first).rdropWhile (isContextItem hookPromptXml) := by
  induction cut generalizing baseline with
  | zero =>
    obtain rfl : first = 0 := by omega
    rfl
  | succ cut ih =>
    by_cases atFirst : cut + 1 ≤ first
    · obtain rfl : first = cut + 1 := by omega
      rw [trimPreTurnContextUpdates, if_pos atFirst,
        List.drop_eq_nil_of_le (List.length_take_le _ _), List.rdropWhile_nil, List.append_nil]
    have found := List.getElem?_eq_getElem (Nat.lt_of_succ_le inside)
    have last : (snapshot.take (cut + 1)).drop first =
        (snapshot.take cut).drop first ++ [snapshot[cut]] := by
      rw [List.take_succ_eq_append_getElem (Nat.lt_of_succ_le inside)]
      apply List.drop_append_of_le_length
      rw [List.length_take]
      omega
    obtain ⟨next, step⟩ := trimPreTurnContextUpdates_succ hookPromptXml found
      (Nat.not_le.mp atFirst) baseline
    rw [step, last, List.rdropWhile_concat]
    split
    next context => exact ih next (by omega) (by omega)
    next plain =>
      rw [← last]
      conv_lhs => rw [← List.take_append_drop first (snapshot.take (cut + 1))]
      rw [List.take_take, Nat.min_eq_left (Nat.le_of_not_le atFirst)]

theorem items_replace (history : ContextManager TurnContextItem WorldStateSnapshot)
    {items : List ResponseItem} (clean : ∀ item ∈ items, isRemovableSystemItem item = false) :
    (history.replace items).items = items := by
  apply List.filter_eq_self.mpr
  intro item member
  rw [clean item member]
  rfl

/-- Dropping turns of a history without removable system items drops them from its items. -/
theorem items_dropLastNUserTurns (history : ContextManager TurnContextItem WorldStateSnapshot)
    (clean : ∀ item ∈ history.items, isRemovableSystemItem item = false) (numTurns : Nat) :
    (history.dropLastNUserTurns hookPromptXml numTurns).items =
      Turns.dropLast (isUserTurnBoundary hookPromptXml) (isContextItem hookPromptXml) numTurns
        history.items := by
  unfold ContextManager.dropLastNUserTurns
  rcases Nat.eq_zero_or_pos numTurns with rfl | dropping
  · rw [if_pos rfl, Turns.dropLast_zero]
  rw [if_neg (Nat.ne_of_gt dropping), Turns.dropLast_of_pos dropping]
  simp only
  generalize positioned : userMessagePositions hookPromptXml history.items = positions
  have count : positions.length = history.items.countP (isUserTurnBoundary hookPromptXml) := by
    rw [← positioned, userMessagePositions, List.length_findIdxs]
  have position : ∀ index, index < positions.length →
      positions[index]? =
        some (history.items.findIdxNth (isUserTurnBoundary hookPromptXml) index) := by
    intro index inside
    subst positioned
    rw [List.getElem?_eq_getElem inside]
    exact congrArg some List.getElem_findIdxs_eq_findIdxNth
  cases positions with
  | nil =>
    rw [List.length_nil] at count
    have none : ∀ more, Turns.keep (isUserTurnBoundary hookPromptXml) more history.items =
        history.items := fun more => Turns.keep_of_le (by omega)
    have front := @Turns.trim_lead _ (isUserTurnBoundary hookPromptXml)
      (isContextItem hookPromptXml) history.items
    rw [← Turns.keep_zero, none] at front
    rw [none, front]
    rfl
  | cons first later =>
    have atFirst := position 0 (Nat.succ_pos _)
    rw [List.getElem?_cons_zero, Option.some_inj] at atFirst
    have cut : (if (first :: later).length ≤ numTurns then first
        else (first :: later).getD ((first :: later).length - numTurns) 0) =
        history.items.findIdxNth (isUserTurnBoundary hookPromptXml)
          (history.items.countP (isUserTurnBoundary hookPromptXml) - numTurns) := by
      rw [← count]
      split
      next all => rw [Nat.sub_eq_zero_of_le all, atFirst]
      next some_ =>
        rw [List.getD_eq_getElem?_getD, position _ (by omega), Option.getD_some]
    rw [List.head?_cons]
    simp only
    rw [items_replace, cut, take_trimPreTurnContextUpdates, Turns.trim_keep, atFirst]
    · rw [atFirst]
      exact List.findIdxNth_mono (Nat.zero_le _)
    · exact List.findIdxNth_le_length
    · intro item member
      exact clean item (List.mem_of_mem_take member)

/-- **Rollback composes.** Dropping turns leaves a prefix of the history with everything before
    its first turn and the turns that are left, no contextual item at their end, and it does not
    matter whether turns are dropped at once or one after the other. -/
theorem dropLastNUserTurns_composes (history : ContextManager TurnContextItem WorldStateSnapshot)
    (clean : ∀ item ∈ history.items, isRemovableSystemItem item = false) (m n : Nat) :
    let boundary := isUserTurnBoundary hookPromptXml
    let turns := history.items.countP boundary
    let kept := (history.dropLastNUserTurns hookPromptXml n).items
    kept <+: history.items ∧
      (history.items.takeWhile fun item => !boundary item) <+: kept ∧
      kept.countP boundary = turns - n ∧
      (0 < n → n < turns → ∃ last, kept.getLast? = some last ∧
        isContextItem hookPromptXml last = false) ∧
      ((history.dropLastNUserTurns hookPromptXml m).dropLastNUserTurns hookPromptXml n).items =
        (history.dropLastNUserTurns hookPromptXml (m + n)).items := by
  have items := items_dropLastNUserTurns hookPromptXml history clean
  have apart := isContextItem_of_boundary hookPromptXml
  simp only
  rw [items n]
  refine ⟨Turns.dropLast_isPrefix _ _, Turns.lead_isPrefix_dropLast _ _,
    Turns.countP_dropLast apart _ _, ?_, ?_⟩
  · intro dropping left
    rw [Turns.dropLast_of_pos dropping]
    apply Turns.getLast?_trim apart
    rw [Turns.countP_keep]
    omega
  have stillClean : ∀ item ∈ (history.dropLastNUserTurns hookPromptXml m).items,
      isRemovableSystemItem item = false := by
    intro item member
    rw [items m] at member
    exact clean item ((Turns.dropLast_isPrefix _ _).subset member)
  rw [items_dropLastNUserTurns hookPromptXml _ stillClean, items m, items (m + n),
    Turns.dropLast_dropLast apart]

/-- Two turns, the second one prepared by a developer message. -/
def preparedTurns : ContextManager Unit Unit where
  items :=
    [.agentMessage none "root" "worker" [] none,
      .message none "developer" [.inputText "<model_switch>a</model_switch>"] none none,
      .agentMessage none "root" "worker" [] none]
  historyVersion := 0
  projectionRevision := 0
  realizedContextBaseline := .unknown
  worldStateBaseline := none

theorem preparedTurns_dropped :
    ((preparedTurns.dropLastNUserTurns (fun _ => none) 1).dropLastNUserTurns
        (fun _ => none) 1).items = (preparedTurns.dropLastNUserTurns (fun _ => none) 2).items :=
  (dropLastNUserTurns_composes (fun _ => none) preparedTurns (by decide +kernel) 1 1).2.2.2.2

end Turns

end Codex.Conversation
