import NestServer.Runs
import NestServer.RestrictedKeys
import NestServer.RestrictedPayload
import NestServer.RestrictedInput
import NestServer.OrderedMap
import NestServer.TenantContextSoundness
import NestServer.RoleAuthority
import NestServer.TenantTransports
import NestServer.MembershipFreshness
import NestServer.TenantWriteIsolation
import NestServer.TenantReadIsolation
import NestServer.RestrictedGraph
import NestServer.Migration.LockSafety
import NestServer.Migration.StateAgreement
import NestServer.CrudUpdate
import NestServer.SharedOptionsIsolation
import NestServer.Scim.Injection
import NestServer.Scim.Consumption
import NestServer.Scim.RoundTrip
import NestServer.FilterInjection
import NestServer.RoleEscalation
import NestServer.SystemRoleStorage
import NestServer.PasswordStorage
import NestServer.RoleGuards
import NestServer.DeviceSessions
import NestServer.CredentialAgreement
import NestServer.RoleFreshness
import NestServer.Ai.Confirmation
import NestServer.Ai.PolicyBinding
import NestServer.Ai.TokenBalance
import NestServer.Ai.ConversationIsolation
import NestServer.Ai.TokenLineage
import NestServer.Ai.SessionLifecycle
import NestServer.Ai.DefaultConnection
import NestServer.RateLimit.Agreement
import NestServer.RateLimit.StrictRoutes
import NestServer.Hub.Delivery
import NestServer.PubSub.Payload
import NestServer.Cron.Leases
import NestServer.Tus.RedisLock
import NestServer.Tus.Finish
import NestServer.Files.DownloadSafety
import NestServer.Files.ContentDisposition
import NestServer.Files.ReadBack
import NestServer.Files.OneListing
import NestServer.LastOwner
import NestServer.RoleAccess
import NestServer.InputRoles
import NestServer.RateLimit.Resets
import NestServer.FindFilter
import NestServer.DbHelper
import NestServer.IdArrays
import NestServer.RestrictedCache
import NestServer.NestedTypeRegistry
import NestServer.TenantNarrowing
import NestServer.PipelineReuse
import NestServer.RestrictedArray
import NestServer.Whitelisting
import NestServer.Setup.OneAdmin
import NestServer.Setup.Retry
import NestServer.PopulateOptions
import NestServer.Ai.ContextWindow
import NestServer.Ai.ConnectionResolver
import NestServer.Tus.Waiting
import NestServer.Migration.Sequential
import NestServer.Validation
import NestServer.DepthFirst
import NestServer.SecretRemoval
import NestServer.UnresolvedReferences
import NestServer.ProcessDeepSharing
import NestServer.Ai.ExtractedJson
import NestServer.IdEquality
import NestServer.Ai.SlotAgreement
import NestServer.EnvironmentOrder
import NestServer.Ai.ToolSummary
import NestServer.BetterAuth.SessionInjection
import NestServer.BetterAuth.AuthenticationSafety
import NestServer.BetterAuth.ChallengeCookie
import NestServer.BetterAuth.ChallengeSafety
import NestServer.AuditFields
