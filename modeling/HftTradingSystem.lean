import HftTradingSystem.Quote
import HftTradingSystem.Binary64
import HftTradingSystem.Position.Basic
import HftTradingSystem.Position.Accounting
import HftTradingSystem.Position.AveragePrice
import HftTradingSystem.Exchange
import HftTradingSystem.Bot
import HftTradingSystem.Bot.Orders
import HftTradingSystem.Bot.Submission
import HftTradingSystem.Bot.Loop
import HftTradingSystem.Download.Months
import HftTradingSystem.Text
import HftTradingSystem.Download.Backtest
import HftTradingSystem.Download.Merge
import HftTradingSystem.Rag.Chunk
import HftTradingSystem.Rag.Index
import HftTradingSystem.Rag.Regex
import HftTradingSystem.Rag.CodeDocs
import HftTradingSystem.Download.Calendar
import HftTradingSystem.Download.Main
import HftTradingSystem.Rag.Service
