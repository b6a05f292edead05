import HeirsOcr.WebhookExclusion
import HeirsOcr.WebhookDelivery
import HeirsOcr.AddressVerdict
import HeirsOcr.TokenAccounting
import HeirsOcr.ShutOut
import HeirsOcr.MfaEnrolment
import HeirsOcr.MfaSingleUse
import HeirsOcr.CodeGuessing
import HeirsOcr.SubscriptionTerms
import HeirsOcr.WebhookAttempts
import HeirsOcr.KeyResolution
import HeirsOcr.SignInNetwork
import HeirsOcr.OldPassword
import HeirsOcr.Cancellation
import HeirsOcr.TrialConversion
import HeirsOcr.CapabilitySafety
import HeirsOcr.FellBackFrom
import HeirsOcr.JobMetering
import HeirsOcr.SignupCodes
import HeirsOcr.Verification
import HeirsOcr.LastOwner
import HeirsOcr.SessionIndex
import HeirsOcr.PasswordGuessing
import HeirsOcr.PasswordSpray
import HeirsOcr.LogRedaction
import HeirsOcr.ReceiptProjection
import HeirsOcr.EndpointCap
import HeirsOcr.TrialPricing
import HeirsOcr.ResetLinks
import HeirsOcr.ResetIsolation
import HeirsOcr.RestoreFailure
import HeirsOcr.BillingCaches
import HeirsOcr.ReceiptCollapse
import HeirsOcr.ReceiptSchema
import HeirsOcr.SchemaBounds
import HeirsOcr.ReviewBar
import HeirsOcr.ReceiptConfidence
import HeirsOcr.LoanReview
import HeirsOcr.LoudDegradation
import HeirsOcr.TextExtraction
import HeirsOcr.FormDataExtraction
import HeirsOcr.AllowlistAddress
import HeirsOcr.LayoutMapping
import HeirsOcr.RoutingOrder
import HeirsOcr.SigningSlots
import HeirsOcr.CidrMatching
import HeirsOcr.Calendar
import HeirsOcr.DecimalText
import HeirsOcr.IdDates
import HeirsOcr.IdDateForms
import HeirsOcr.IdVerification
import HeirsOcr.PdfAuthenticity
import HeirsOcr.Newest
import HeirsOcr.RecentJobs
import HeirsOcr.ConfidenceLaws
import HeirsOcr.Sniffing
import HeirsOcr.CookieHeader
import HeirsOcr.Buckets
import HeirsOcr.RequestTimeseries
import HeirsOcr.Doubles
import HeirsOcr.NumberText
import HeirsOcr.PageParams
import HeirsOcr.MailTemplates
import HeirsOcr.IsoDates
import HeirsOcr.JsValue
import HeirsOcr.SubscriptionStorage
import HeirsOcr.Base32
import HeirsOcr.CropGeometry
import HeirsOcr.DocumentKeys
import HeirsOcr.FixedWindow
import HeirsOcr.Hotp
import HeirsOcr.Names
import HeirsOcr.NumberRoundTrip
import HeirsOcr.Paginate
import HeirsOcr.PromptFence
import HeirsOcr.RateCeiling
import HeirsOcr.SchemaArgs
import HeirsOcr.SchemaControls
import HeirsOcr.SchemaDefaults
import HeirsOcr.SchemaPayload
import HeirsOcr.DocumentArchive
import HeirsOcr.OrphanedFiles
import HeirsOcr.RetentionSweep
import HeirsOcr.WebhookFanout
import HeirsOcr.WebhookSigning
import HeirsOcr.EventStream
import HeirsOcr.JobEvents
import HeirsOcr.OcrStores
import HeirsOcr.ReadingOrder
import HeirsOcr.GlmClient
import HeirsOcr.ProvisioningFailures
