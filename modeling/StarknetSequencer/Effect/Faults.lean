import StarknetSequencer.Effect.State

namespace Effect

-- what a process does to one file; it can stop wherever a constructor stands
inductive FileProgram (ε β α : Type) where
  | done (a : α)
  | panic (e : ε)
  | read (next : Option (List β) → FileProgram ε β α)
  | truncate (next : FileProgram ε β α)
  | write (contents : List β) (next : FileProgram ε β α)

inductive Fate where
  | goes
  | fails
  | stops
deriving DecidableEq

inductive Outcome (ε β α : Type) where
  | returned (a : α)
  | panicked (e : ε)
  | stopped (rest : FileProgram ε β α)

variable {ε β α : Type}

def Outcome.torn : Outcome ε β α → Bool
  | .stopped (.write _ _) => true
  | _ => false

namespace FileProgram

def fsWrite (contents : List β) (next : FileProgram ε β α) : FileProgram ε β α :=
  .truncate (.write contents next)

def run : FileProgram ε β α → EStateM ε (Option (List β)) α
  | .done a => return a
  | .panic e => throw e
  | .read next => do (next (← get)).run
  | .truncate next => do set (some ([] : List β)); next.run
  | .write contents next => do set (some contents); next.run

-- one fate for each file step, `goes` for those past the end of the list; only a read can fail
def exec : FileProgram ε β α → List Fate → Option (List β) → Outcome ε β α × Option (List β)
  | program, .stops :: _, file => (.stopped program, file)
  | .done a, _, file => (.returned a, file)
  | .panic e, _, file => (.panicked e, file)
  | .read next, .fails :: fates, file => (next none).exec fates file
  | .read next, fates, file => (next file).exec fates.tail file
  | .truncate next, fates, _ => next.exec fates.tail (some [])
  | .write contents next, fates, _ => next.exec fates.tail (some contents)

theorem exec_nil (program : FileProgram ε β α) (file : Option (List β)) :
    program.exec [] file = match program.run.run file with
      | .ok a file => (.returned a, file)
      | .error e file => (.panicked e, file) := by
  induction program generalizing file with
  | done a => rfl
  | panic e => rfl
  | read next ih => exact ih file file
  | truncate next ih => exact ih (some [])
  | write contents next ih => exact ih (some contents)

theorem exec_done (a : α) (fates : List Fate) (file : Option (List β)) :
    (done a : FileProgram ε β α).exec fates file = (.returned a, file) ∨
      (done a : FileProgram ε β α).exec fates file = (.stopped (.done a), file) := by
  rcases fates with _ | ⟨_ | _ | _, fates⟩
  · exact .inl rfl
  · exact .inl rfl
  · exact .inl rfl
  · exact .inr rfl

theorem exec_panic (e : ε) (fates : List Fate) (file : Option (List β)) :
    (panic e : FileProgram ε β α).exec fates file = (.panicked e, file) ∨
      (panic e : FileProgram ε β α).exec fates file = (.stopped (.panic e), file) := by
  rcases fates with _ | ⟨_ | _ | _, fates⟩
  · exact .inl rfl
  · exact .inl rfl
  · exact .inl rfl
  · exact .inr rfl

theorem exec_read (next : Option (List β) → FileProgram ε β α) (fates : List Fate)
    (file : Option (List β)) :
    (read next).exec fates file = (.stopped (read next), file) ∨
      (fates.head? = some .fails ∧
        (read next).exec fates file = (next none).exec fates.tail file) ∨
      (read next).exec fates file = (next file).exec fates.tail file := by
  rcases fates with _ | ⟨_ | _ | _, fates⟩
  · exact .inr (.inr rfl)
  · exact .inr (.inr rfl)
  · exact .inr (.inl ⟨rfl, rfl⟩)
  · exact .inl rfl

theorem exec_fsWrite (contents : List β) (next : FileProgram ε β α) (fates : List Fate)
    (file : Option (List β)) :
    (fsWrite contents next).exec fates file = (.stopped (fsWrite contents next), file) ∨
      (fsWrite contents next).exec fates file = (.stopped (.write contents next), some []) ∨
      (fsWrite contents next).exec fates file = next.exec fates.tail.tail (some contents) := by
  rcases fates with _ | ⟨_ | _ | _, _ | ⟨_ | _ | _, fates⟩⟩ <;>
    first
    | exact .inl rfl
    | exact .inr (.inl rfl)
    | exact .inr (.inr rfl)

end FileProgram

end Effect
