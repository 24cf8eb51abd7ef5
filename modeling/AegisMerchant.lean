import AegisMerchant.Agent.Admissible
import AegisMerchant.Agent.BlockedStatus
import AegisMerchant.Agent.ControlArm
import AegisMerchant.Agent.Graph
import AegisMerchant.Agent.LedgerCounts
import AegisMerchant.Agent.MergedMeaning
import AegisMerchant.Agent.NoAction
import AegisMerchant.Agent.RailHealth
import AegisMerchant.Agent.RiskBlock
import AegisMerchant.Agent.RunBounds
import AegisMerchant.Core.Power
import AegisMerchant.Core.Provenance
import AegisMerchant.Guardrails.BlockReasons
import AegisMerchant.Guardrails.DateRange
import AegisMerchant.Guardrails.DiscountBudget
import AegisMerchant.Guardrails.DiscountFigures
import AegisMerchant.Guardrails.HeldSends
import AegisMerchant.Guardrails.OnePass
import AegisMerchant.Guardrails.Reissue
import AegisMerchant.Guardrails.RenderLaws
import AegisMerchant.Guardrails.TokenLaws
import AegisMerchant.Guardrails.VerdictLaws
import AegisMerchant.Ingest.References
import AegisMerchant.Llm.GeminiAdapter
import AegisMerchant.Llm.Prompts
import AegisMerchant.Llm.RateLimit
import AegisMerchant.Routers.Stream
import AegisMerchant.Routers.TightenedBounds
import AegisMerchant.Routers.WebhookGates
import AegisMerchant.Services.ApprovalExpiry
import AegisMerchant.Services.AttributionLaws
import AegisMerchant.Services.OneDecision
import AegisMerchant.Services.ReportLaws
import AegisMerchant.Tools.AttemptBudget
import AegisMerchant.Tools.ChainLaws
import AegisMerchant.Tools.ChainPins
import AegisMerchant.Tools.ExactlyOnce
import AegisMerchant.Tools.MockProvider
import AegisMerchant.Workers.BatchBounds
import AegisMerchant.Workers.Benchmark
import AegisMerchant.Workers.CommittedTerms
import AegisMerchant.Workers.ContactCaps
import AegisMerchant.Workers.CreditedBooks
import AegisMerchant.Workers.CreditedInTime
import AegisMerchant.Workers.DeadRows
import AegisMerchant.Workers.DrainGuard
import AegisMerchant.Workers.DueRows
import AegisMerchant.Workers.Holdout
import AegisMerchant.Workers.HoldoutReport
import AegisMerchant.Workers.IssuedReferences
import AegisMerchant.Workers.PoisonRows
import AegisMerchant.Workers.PollRounds
import AegisMerchant.Workers.RecordedChanges
import AegisMerchant.Workers.Reruns
import AegisMerchant.Workers.ResumedCases
import AegisMerchant.Workers.SendAfter
import AegisMerchant.Workers.SettleAmounts
import AegisMerchant.Workers.SettledOnce
import AegisMerchant.Workers.TwoTiles
import AegisMerchant.Workers.WebhookEvents
