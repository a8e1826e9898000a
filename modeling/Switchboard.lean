import Switchboard.Batch.Outcome
import Switchboard.Console
import Switchboard.Decimal.Double
import Switchboard.Decimal.Shortest
import Switchboard.Decimal.Text
import Switchboard.Dialogue
import Switchboard.Dict
import Switchboard.Engine.Run
import Switchboard.Engine.State
import Switchboard.Engine.Step
import Switchboard.Fault
import Switchboard.Http.Basic
import Switchboard.Json.Lenient
import Switchboard.Json.Lexeme
import Switchboard.Json.Number
import Switchboard.Json.Printer
import Switchboard.Json.Record
import Switchboard.Json.Tree
import Switchboard.Json.Value
import Switchboard.Main
import Switchboard.Message
import Switchboard.Model.Backend
import Switchboard.Model.Chat
import Switchboard.Permits
import Switchboard.Plan.Event
import Switchboard.Plan.Progress
import Switchboard.Plan.Prompt
import Switchboard.Plan.Steps
import Switchboard.Plan.Verdict
import Switchboard.Program
import Switchboard.Route.Intent
import Switchboard.Route.Router
import Switchboard.Rpc.Response
import Switchboard.Rpc.Request
import Switchboard.Rpc.Result
import Switchboard.Scripted.Clock
import Switchboard.Scripted.Embedder
import Switchboard.Scripted.Endpoints
import Switchboard.Scripted.HttpServer
import Switchboard.Scripted.Model
import Switchboard.Scripted.Script
import Switchboard.Scripted.Tools
import Switchboard.Scripted.World
import Switchboard.Server.HttpSession
import Switchboard.Server.Pool
import Switchboard.Service.Basic
import Switchboard.Service.Build
import Switchboard.Service.Health
import Switchboard.Settings.Basic
import Switchboard.Settings.Tree
import Switchboard.Skill.Catalog
import Switchboard.Skill.Document
import Switchboard.Skill.Folder
import Switchboard.Skill.Index
import Switchboard.Skill.Prompts
import Switchboard.Store.Basic
import Switchboard.Store.Memory
import Switchboard.Store.Pending
import Switchboard.Store.Rows
import Switchboard.Text.Blank
import Switchboard.Text.Cut
import Switchboard.Text.Lowercase
import Switchboard.Text.Timestamp
import Switchboard.Toml.Document
import Switchboard.Toml.Reader
import Switchboard.Toml.Scalar
import Switchboard.Toml.Value
import Switchboard.Tool.Call
import Switchboard.Tool.Handle
import Switchboard.Turn.Basic
import Switchboard.Proofs.Listener
import Switchboard.Proofs.Requests
import Switchboard.Proofs.Course
import Switchboard.Proofs.Reachable
import Switchboard.Proofs.RunEvents
import Switchboard.Proofs.IntentRuns
import Switchboard.Proofs.TurnParts
import Switchboard.Proofs.TurnEvents
import Switchboard.Proofs.PendingIntents
import Switchboard.Proofs.Completion
import Switchboard.Proofs.ToolCalls
import Switchboard.Proofs.ToolRights
import Switchboard.Proofs.CompletedTurns
import Switchboard.Proofs.StoredStreaks
import Switchboard.Proofs.AskStreaks
import Switchboard.Proofs.Replies
import Switchboard.Proofs.StoredMessages
import Switchboard.Proofs.Remembered
import Switchboard.Proofs.Oracles
import Switchboard.Proofs.RunOutcomes
import Switchboard.Proofs.Allowance
import Switchboard.Proofs.Termination
import Switchboard.Proofs.Cancellation
import Switchboard.Proofs.StoreOperations
import Switchboard.Proofs.PoolTraces
import Switchboard.Proofs.ToolListing
import Switchboard.Proofs.Connections
import Switchboard.Proofs.SessionAccounts
import Switchboard.Proofs.StoredViews
import Switchboard.Proofs.SteadyServers
import Switchboard.Proofs.TurnRights
import Switchboard.Proofs.Conversations
import Switchboard.Proofs.StepRounds
import Switchboard.Proofs.Questions
import Switchboard.Proofs.BatchEnds
import Switchboard.Proofs.PlainWords
import Switchboard.Proofs.SpokenTurns
import Switchboard.Proofs.ToolNames
import Switchboard.Proofs.WrittenPlans
import Switchboard.Proofs.WrittenIntents
import Switchboard.Proofs.NumberText
import Switchboard.Proofs.JsonText
import Switchboard.Proofs.WrittenCalls
import Switchboard.Proofs.FirstItems
import Switchboard.Proofs.ResolvedTools
import Switchboard.Proofs.StepTranscript
import Switchboard.Proofs.CatalogNames
import Switchboard.Proofs.Routing
import Switchboard.Proofs.EventStreams
import Switchboard.Proofs.HttpSessions
import Switchboard.Proofs.SkillDocuments
import Switchboard.Proofs.ListedSkills
import Switchboard.Proofs.OfferedSkills
import Switchboard.Proofs.KeptPrompts
import Switchboard.Proofs.PrintedValues
import Switchboard.Proofs.PrintedResponses
import Switchboard.Proofs.EmptySections
import Switchboard.Proofs.TrackedStreaks
import Switchboard.Proofs.ProgressHistories
import Switchboard.Proofs.TurnEnds
