import HftTradingSystem.Bot

/-!
# The main loop and `check_fills`

`update_quotes` catches every exception, `check_fills` only `BinanceAPIException`s, so an
exception of any other kind raised by `get_my_trades` leaves the loop; nothing else does but
`stop()`. And `check_fills` goes through the last five trades at each poll, with no memory of
the trades it has been through before. Nor does it apply them: no run ever changes the
tracked position.
-/

namespace HftTradingSystem

theorem rtake_rtake {α : Type} (l : List α) {m n : ℕ} (hmn : m ≤ n) :
    (l.rtake n).rtake m = l.rtake m := by
  simp [List.rtake_eq_reverse_take_reverse, List.take_take, min_eq_left hmn]

/-- A cycle in which the cancel of `update_quotes` raises a transport error and
`get_my_trades` a `BinanceAPIException`. -/
def errorCycle : CycleTurns :=
  { quotes := { cancel := { failure := some .transport } }
    fills := { failure := some (.api (-1003)) } }

section

variable (config : StrategyConfig)

/-- What `check_fills` does: nothing to the bot, whose position stays as it was, and it goes
through the fills of the last five trades executed before its `get_my_trades` call, oldest
first, whatever it went through at earlier polls; none when the call raises a
`BinanceAPIException`. -/
theorem checkFills_decodes (w : World) (turn : Turn) :
    (checkFills w turn).2.bot = w.bot ∧
      (checkFills w turn).1 =
        match turn.failure with
        | none => .ok ((w.exchange.applyAll turn.events).trades.rtake 5)
        | some (.api _) => .ok []
        | some e => .error e := by
  refine ⟨checkFills_bot w turn, ?_⟩
  rw [checkFills_eq]
  rcases turn.failure with _ | (_ | _ | _) <;> simp [Exchange.receive, rtake_rtake]

theorem placeSide_bot (w : World) (turn : Turn) (side : Side) (price size : ℚ) :
    (placeSide config w turn side price size).2.bot.position = w.bot.position ∧
      (placeSide config w turn side price size).2.bot.running = w.bot.running := by
  unfold placeSide
  split
  · rw [placeOrder_eq]
    rcases turn.failure with _ | (_ | _ | _) <;> cases side <;> simp [Bot.setOrderId]
  · simp

theorem placeQuotes_bot (w : World) (bid ask : Turn) (quote : Quote) :
    (placeQuotes config w bid ask quote).bot.position = w.bot.position ∧
      (placeQuotes config w bid ask quote).bot.running = w.bot.running := by
  have hbid := placeSide_bot config w bid .buy quote.bidPrice quote.bidSize
  unfold placeQuotes
  rcases hplace : placeSide config w bid .buy quote.bidPrice quote.bidSize with ⟨_ | _, w'⟩
  · rw [hplace] at hbid
    exact hbid
  · rw [hplace] at hbid
    obtain ⟨hposition, hrunning⟩ := placeSide_bot config w' ask .sell quote.askPrice quote.askSize
    exact ⟨hposition.trans hbid.1, hrunning.trans hbid.2⟩

/-- `update_quotes` changes no more of the bot than its order identifiers. -/
theorem updateQuotes_bot (w : World) (turns : QuoteTurns) :
    (updateQuotes config w turns).bot.position = w.bot.position ∧
      (updateQuotes config w turns).bot.running = w.bot.running := by
  have hticker := getMidPrice_bot w turns.ticker
  unfold updateQuotes
  rcases hmid : getMidPrice w turns.ticker with ⟨_ | midPrice, w₁⟩
  · rw [hmid] at hticker
    simp [← hticker]
  · rw [hmid] at hticker
    dsimp only at hticker ⊢
    rw [cancelAllOrders_eq]
    rcases turns.cancel.failure with _ | (_ | _ | _) <;> dsimp only
    · rw [(placeQuotes_bot config _ _ _ _).1, (placeQuotes_bot config _ _ _ _).2]
      simp [← hticker]
    · rw [(placeQuotes_bot config _ _ _ _).1, (placeQuotes_bot config _ _ _ _).2]
      simp [← hticker]
    · simp [← hticker]
    · simp [← hticker]

theorem cycle_error {w : World} {turns : CycleTurns} {e : ClientError}
    (herror : (cycle config w turns).1 = .error e) :
    turns.fills.failure = some e ∧ ∀ code, e ≠ .api code := by
  unfold cycle at herror
  rw [checkFills_eq] at herror
  rcases hfail : turns.fills.failure with _ | (_ | _ | _) <;> simp [hfail] at herror <;>
    subst herror <;> simp

theorem cycle_of_caught {w : World} {turns : CycleTurns} (hstop : turns.stop = false)
    (hcaught : ∀ e, turns.fills.failure = some e → ∃ code, e = .api code) :
    (cycle config w turns).1 = .ok () ∧ (cycle config w turns).2.bot.running = w.bot.running := by
  have hrunning := (updateQuotes_bot config w turns.quotes).2
  unfold cycle
  rw [checkFills_eq]
  rcases hfail : turns.fills.failure with _ | (_ | _ | _)
  · simpa [hstop] using hrunning
  · simpa [hstop] using hrunning
  all_goals obtain ⟨_, hcode⟩ := hcaught _ hfail; cases hcode

/-- Unless `stop()` is called or `get_my_trades` raises something other than a
`BinanceAPIException`, the loop goes through every cycle and is still running after them:
every exception `update_quotes` meets, of any call, is caught. -/
theorem loop_keeps_running (cycles : List CycleTurns) (w : World) (hrunning : w.bot.running = true)
    (hcycles : ∀ turns ∈ cycles,
      turns.stop = false ∧ ∀ e, turns.fills.failure = some e → ∃ code, e = .api code) :
    (loop config cycles w).1 = .running := by
  induction cycles generalizing w with
  | nil => simp [loop, hrunning]
  | cons turns cycles ih =>
      obtain ⟨hstop, hcaught⟩ := hcycles turns (List.mem_cons_self _ _)
      obtain ⟨hok, hstill⟩ := cycle_of_caught config (w := w) hstop hcaught
      rcases hcycle : cycle config w turns with ⟨_ | _, w'⟩
      · rw [hcycle] at hok; cases hok
      · rw [hcycle] at hstill
        simp only [loop, hrunning, if_true, hcycle]
        exact ih w' (hstill.trans hrunning) fun t ht => hcycles t (List.mem_cons_of_mem _ ht)

/-- An exception that leaves the loop was raised by the `get_my_trades` of `check_fills`, and
is not a `BinanceAPIException`. -/
theorem loop_raised {cycles : List CycleTurns} {w : World} {e : ClientError}
    (hraised : (loop config cycles w).1 = .raised e) :
    ∃ turns ∈ cycles, turns.fills.failure = some e ∧ ∀ code, e ≠ .api code := by
  induction cycles generalizing w with
  | nil => simp only [loop] at hraised; split at hraised <;> cases hraised
  | cons turns cycles ih =>
      simp only [loop] at hraised
      split at hraised
      · rcases hcycle : cycle config w turns with ⟨_ | _, w'⟩
        · rw [hcycle] at hraised
          cases hraised
          have herror : (cycle config w turns).1 = .error e := by rw [hcycle]
          exact ⟨turns, List.mem_cons_self _ _, cycle_error config herror⟩
        · rw [hcycle] at hraised
          obtain ⟨t, ht, hfail⟩ := ih hraised
          exact ⟨t, List.mem_cons_of_mem _ ht, hfail⟩
      · cases hraised

end

/-- Two such cycles: the loop is still running after both. -/
theorem loop_keeps_running_through_errors :
    World.opening.bot.running = true ∧
      (∀ turns ∈ [errorCycle, errorCycle], turns.stop = false ∧
        ∀ e, turns.fills.failure = some e → ∃ code, e = .api code) ∧
      (loop {} [errorCycle, errorCycle] World.opening).1 = .running := by
  have hcycles : ∀ turns ∈ [errorCycle, errorCycle], turns.stop = false ∧
      ∀ e, turns.fills.failure = some e → ∃ code, e = .api code := by
    simp [errorCycle]
  exact ⟨rfl, hcycles, loop_keeps_running {} _ _ rfl hcycles⟩

theorem loop_raised_by_transport_error :
    (loop {} [{ fills := { failure := some .transport } }] World.opening).1 = .raised .transport ∧
      ∃ turns ∈ [({ fills := { failure := some .transport } } : CycleTurns)],
        turns.fills.failure = some .transport ∧ ∀ code, ClientError.transport ≠ .api code := by
  have hraised : (loop {} [{ fills := { failure := some .transport } }] World.opening).1 =
      .raised .transport := by
    simp [loop, World.opening, cycle, checkFills_eq]
  exact ⟨hraised, loop_raised {} hraised⟩

/-- A `BinanceRequestException` of `get_my_trades` in the first cycle leaves the loop, with no
`stop()` called and a second cycle to come. -/
theorem loop_left_by_request_error :
    (loop {} [{ fills := { failure := some .request } }, {}] World.opening).1 = .raised .request := by
  simp [loop, World.opening, cycle, checkFills_eq]

/-- The first poll of the opening cycle, after six partial executions of its BUY. -/
def partialFillsPoll : Except ClientError (List Fill) × World :=
  checkFills (updateQuotes {} World.opening {})
    { events := List.replicate 6 (.execute 1 (1 / 10000)) }

/-- Six fills of `0.0001` have been executed when the poll comes. The poll goes through only
the last five, and the next poll goes through the same five again. The position applies none
of them: it is still the fresh one, where the six fills applied once give a quantity of
`0.0006`. -/
theorem checkFills_skips_and_repeats :
    partialFillsPoll.1 = .ok (List.replicate 5 ⟨.buy, 1 / 10000, 1999 / 20⟩) ∧
      (checkFills partialFillsPoll.2 {}).1 = .ok (List.replicate 5 ⟨.buy, 1 / 10000, 1999 / 20⟩) ∧
      partialFillsPoll.2.exchange.trades = List.replicate 6 ⟨.buy, 1 / 10000, 1999 / 20⟩ ∧
      partialFillsPoll.2.bot.position = {} ∧
      (Position.applyFills {} partialFillsPoll.2.exchange.trades).quantity = 6 / 10000 := by
  norm_num [partialFillsPoll, World.opening, updateQuotes, placeQuotes, getMidPrice_eq,
    cancelAllOrders_eq, placeSide, placeOrder_eq, checkFills_eq, Exchange.receive,
    Exchange.applyAll, Exchange.apply, Exchange.serveCreate, MarketMaker.calculateQuotes,
    Exchange.reduce, Bot.setOrderId, formatFixed, roundHalfEven, List.rtake, List.replicate,
    Position.applyFills, Position.onFill]

/-! ## The tracked position -/

section

variable (config : StrategyConfig)

theorem cycle_position (w : World) (turns : CycleTurns) :
    (cycle config w turns).2.bot.position = w.bot.position := by
  have hfills := checkFills_bot (updateQuotes config w turns.quotes) turns.fills
  unfold cycle
  rcases hcheck : checkFills (updateQuotes config w turns.quotes) turns.fills with ⟨_ | _, w'⟩
  all_goals
    rw [hcheck] at hfills
    have hposition : w'.bot.position = w.bot.position := by
      rw [show w'.bot = _ from hfills, (updateQuotes_bot config w turns.quotes).1]
  · exact hposition
  · dsimp only
    split <;> exact hposition

theorem loop_position (cycles : List CycleTurns) (w : World) :
    (loop config cycles w).2.bot.position = w.bot.position := by
  induction cycles generalizing w with
  | nil => rfl
  | cons turns cycles ih =>
      simp only [loop]
      split
      · rcases hcycle : cycle config w turns with ⟨_ | _, w'⟩
        · rw [← cycle_position config w turns, hcycle]
        · rw [ih, ← cycle_position config w turns, hcycle]
      · rfl

/-- No run changes the tracked position: the line of `check_fills` that would apply the fills
is commented out, and nothing else writes the position. -/
theorem run_keeps_position (w : World) (account : Turn) (cycles : List CycleTurns)
    (final : Turn) : (run config w account cycles final).2.bot.position = w.bot.position := by
  have hbalance : (getAccountBalance { w with bot.running := true } account).2.bot.position =
      w.bot.position := rfl
  unfold run
  split
  · rename_i w₁ hbal
    rw [hbal] at hbalance
    exact hbalance
  · rename_i w₁ hbal
    rw [hbal] at hbalance
    have hstart : w₁.bot.position = w.bot.position := hbalance
    split
    · rename_i w₂ hl
      rw [← hstart, ← loop_position config cycles w₁, hl]
    · rename_i ending w₂ _ hl
      split <;> rename_i w₃ hc <;>
        rw [← hstart, ← loop_position config cycles w₁, hl, ← cancelAllOrders_position w₂ final, hc]

end

end HftTradingSystem
