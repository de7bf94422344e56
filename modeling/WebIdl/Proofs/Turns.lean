namespace WebIdl

variable {α β : Type}

/-- What the items give one after the other, each in view of all that stand before it. -/
def inTurn (gives : List α → α → List β) (earlier : List α) : List α → List β
  | [] => []
  | next :: rest => gives earlier next ++ inTurn gives (earlier ++ [next]) rest

theorem inTurn_append (gives : List α → α → List β) (earlier items more : List α) :
    inTurn gives earlier (items ++ more)
      = inTurn gives earlier items ++ inTurn gives (earlier ++ items) more := by
  induction items generalizing earlier with
  | nil => simp [inTurn]
  | cons next rest ih => simp [inTurn, ih]

theorem inTurn_concat (gives : List α → α → List β) (items : List α) (next : α) :
    inTurn gives [] (items ++ [next]) = inTurn gives [] items ++ gives items next := by
  simp [inTurn_append, inTurn]

theorem filter_inTurn (keep : β → Bool) (gives : List α → α → List β) (earlier items : List α) :
    (inTurn gives earlier items).filter keep
      = inTurn (fun before next => (gives before next).filter keep) earlier items := by
  induction items generalizing earlier with
  | nil => rfl
  | cons next rest ih => simp only [inTurn, List.filter_append, ih]

end WebIdl
